import LibeventHttpd.AcceptRequest

/-! The words of a request line, and the file that its target names. -/
namespace LibeventHttpd

/-- The characters up to the first blank. -/
def word (line : List CChar) : List CChar := line.takeWhile fun c => ¬IsSpace c

/-- The line from its second word on. -/
def afterMethod (line : List CChar) : List CChar :=
  (line.drop (word line).length).dropWhile fun c => IsSpace c

/-- The second word of a line. -/
def targetOf (line : List CChar) : List CChar := word (afterMethod line)

/-- The part of a target before its first `?`. -/
def pathPart (t : List CChar) : List CChar := t.takeWhile (· ≠ ch '?')

/-- The complete part after it. -/
def queryPart (t : List CChar) : List CChar := (t.dropWhile (· ≠ ch '?')).tail

/-- What `accept_request` takes a request line to say, if its method is known. -/
def requestOf (line : List CChar) : Option Request :=
  let t := targetOf line
  if strcaseeq (word line) (cstr "POST") then some ⟨word line,t,[],true⟩
  else if strcaseeq (word line) (cstr "GET") then
    some ⟨word line,pathPart t,pathPart (queryPart t),ch '?' ∈ t⟩
  else none

section Split
variable {s : List CChar}

theorem word_cons {c : CChar} (hc : ¬IsSpace c) (s : List CChar) : word (c::s) = c::word s := by
  simp [word, hc]

theorem word_space {c : CChar} (hc : IsSpace c) (s : List CChar) : word (c::s) = [] := by
  simp [word, hc]

theorem pathPart_cons {c : CChar} (hc : c ≠ ch '?') (s : List CChar) :
    pathPart (c::s) = c::pathPart s := by simp [pathPart, hc]

theorem queryPart_cons {c : CChar} (hc : c ≠ ch '?') (s : List CChar) :
    queryPart (c::s) = queryPart s := by simp [queryPart, hc]

theorem pathPart_mark (s : List CChar) : pathPart (ch '?'::s) = [] := by simp [pathPart]

theorem queryPart_mark (s : List CChar) : queryPart (ch '?'::s) = s := by simp [queryPart]

theorem queryPart_of_notMem (h : ch '?' ∉ s) : queryPart s = [] := by
  have hnil : s.dropWhile (· ≠ ch '?') = [] := by
    rw [List.dropWhile_eq_nil_iff]
    intro c hc
    rw [decide_eq_true_iff]
    rintro rfl
    exact h hc
  rw [queryPart, hnil]
  rfl

theorem pathPart_eq_self_iff : pathPart s = s ↔ ch '?' ∉ s := by
  rw [pathPart, List.takeWhile_eq_self_iff]
  constructor
  · intro h hmark
    simpa using h _ hmark
  · intro h c hc
    rw [decide_eq_true_iff]
    rintro rfl
    exact h hc

theorem not_isSpace_mark : ¬IsSpace (ch '?') := by decide

/-- The loop leaves the path in front of the first NUL it writes, tells whether there is a `?`, and
behind that NUL leaves the query up to its own first `?`. -/
theorem splitTarget_eq (h0 : 0 ∉ s) :
    text (splitTarget s).1 = pathPart (word s) ∧
      ((splitTarget s).2 = true ↔ ch '?' ∈ word s) ∧
      (ch '?' ∈ word s → text ((splitTarget s).1.drop ((pathPart (word s)).length+1)) =
        pathPart (queryPart (word s))) := by
  induction s with
  | nil => exact ⟨rfl,by simp [splitTarget, word],fun h => by simp [word] at h⟩
  | cons c s ih =>
    simp only [List.mem_cons, not_or] at h0
    obtain ⟨hpath,hflag,hquery⟩ := ih h0.2
    by_cases hmark : c = ch '?'
    · subst hmark
      rw [splitTarget, if_pos rfl, word_cons not_isSpace_mark, pathPart_mark, queryPart_mark,
        text_nul]
      exact ⟨rfl,by simp,fun _ => hpath⟩
    · rw [splitTarget, if_neg hmark]
      by_cases hspace : IsSpace c
      · rw [if_pos hspace, word_space hspace, text_nul]
        exact ⟨rfl,by simp,fun h => by simp at h⟩
      · rw [if_neg hspace, word_cons hspace, pathPart_cons hmark, queryPart_cons hmark,
          text_cons (Ne.symm h0.1), hpath]
        refine ⟨rfl,?_,fun h => ?_⟩
        · rw [hflag, List.mem_cons, or_iff_right (Ne.symm hmark)]
        · exact hquery ((List.mem_cons.mp h).resolve_left (Ne.symm hmark))

theorem getTarget_eq (h0 : 0 ∉ s) (method : List CChar) :
    getTarget method s =
      ⟨method,pathPart (word s),pathPart (queryPart (word s)),ch '?' ∈ word s⟩ := by
  obtain ⟨hpath,hflag,hquery⟩ := splitTarget_eq h0
  rw [getTarget]
  split_ifs with hnil
  · subst hnil
    rfl
  · by_cases hmark : ch '?' ∈ word s
    · simp [hpath, hflag.mpr hmark, hquery hmark, hmark]
    · have hno : (splitTarget s).2 = false := Bool.eq_false_of_not_eq_true (mt hflag.mp hmark)
      simp [hpath, hno, hmark, queryPart_of_notMem hmark]
      rfl

/-- The request line is taken apart as its words say, if they fit their arrays. -/
theorem parseRequest_eq (h0 : 0 ∉ s) :
    parseRequest s = if (word s).length < size/2 ∧ ∀ r ∈ requestOf s, r.url.length < size/2 then
      some (requestOf s) else none := by
  have hafter : 0 ∉ afterMethod s :=
    fun h => h0 (List.mem_of_mem_drop ((List.dropWhile_sublist _).subset h))
  have hreq : requestOf s =
      if strcaseeq (word s) (cstr "POST") then
        some ⟨word s,word (afterMethod s),[],true⟩
      else if strcaseeq (word s) (cstr "GET") then some (getTarget (word s) (afterMethod s))
      else none := by
    rw [getTarget_eq hafter]
    rfl
  rw [hreq, ite_and]
  rfl

end Split

section Methods
variable {line : List CChar}

theorem requestOf_post (h : strcaseeq (word line) (cstr "POST") = true) :
    requestOf line = some ⟨word line,targetOf line,[],true⟩ := if_pos h

theorem requestOf_get (h : strcaseeq (word line) (cstr "GET") = true) :
    requestOf line = some ⟨word line,pathPart (targetOf line),
      pathPart (queryPart (targetOf line)),ch '?' ∈ targetOf line⟩ := by
  rw [requestOf, post_ne_get h, h]
  rfl

theorem requestOf_cases {req : Request} (h : requestOf line = some req) :
    strcaseeq (word line) (cstr "POST") = true ∧ req = ⟨word line,targetOf line,[],true⟩ ∨
      strcaseeq (word line) (cstr "GET") = true ∧ req = ⟨word line,pathPart (targetOf line),
        pathPart (queryPart (targetOf line)),ch '?' ∈ targetOf line⟩ := by
  unfold requestOf at h
  simp only at h
  split_ifs at h with hpost hget
  · exact .inl ⟨hpost,(Option.some.inj h).symm⟩
  · exact .inr ⟨hget,(Option.some.inj h).symm⟩

end Methods

/-- A request line `M S T …`, with a method that is known in any spelling; behind the target comes
a blank, or nothing. -/
structure RequestLine where
  method : List CChar
  blanks : List CChar
  target : List CChar
  tail : List CChar
  known : strcaseeq method (cstr "POST") = true ∨ strcaseeq method (cstr "GET") = true
  blanks_ne : blanks ≠ []
  blanks_space : ∀ c ∈ blanks, IsSpace c
  target_ne : target ≠ []
  target_solid : ∀ c ∈ target, ¬IsSpace c ∧ c ≠ 0
  tail_space : ∀ c ∈ tail.head?, IsSpace c

/-- The line as the C string in the buffer. -/
def RequestLine.line (l : RequestLine) : List CChar :=
  text (l.method ++ (l.blanks ++ (l.target ++ l.tail)))

section Words

theorem tolower_of_isSpace {c : CChar} (h : IsSpace c) : tolower c = c := by
  apply if_neg
  intro hup
  rcases h with rfl | ⟨-,h⟩
  · exact absurd hup.1 (by decide)
  · have hle : ch 'A' ≤ ch '\r' := Int8.le_trans hup.1 h
    exact absurd hle (by decide)

/-- A spelling of a name without blanks has none. -/
theorem not_isSpace_of_strcaseeq {s t : List CChar} (h : strcaseeq s t = true)
    (ht : ∀ c ∈ t.map tolower, ¬IsSpace c) : ∀ c ∈ s, ¬IsSpace c := by
  intro c hc hspace
  refine ht (tolower c) ?_ (by rwa [tolower_of_isSpace hspace])
  rw [← decide_eq_true_iff.mp h]
  exact List.mem_map_of_mem hc

theorem nul_notMem_of_strcaseeq {s t : List CChar} (h : strcaseeq s t = true)
    (ht : 0 ∉ t.map tolower) : 0 ∉ s := by
  intro hs
  apply ht
  rw [← decide_eq_true_iff.mp h]
  exact List.mem_map_of_mem hs

/-- The two words of a line, where a blank or nothing follows them. -/
theorem words_eq {m sp t tail : List CChar} (hm : ∀ c ∈ m, ¬IsSpace c) (hne : sp ≠ [])
    (hsp : ∀ c ∈ sp, IsSpace c) (ht0 : t ≠ []) (ht : ∀ c ∈ t, ¬IsSpace c)
    (htail : ∀ c ∈ tail.head?, IsSpace c) :
    word (m ++ (sp ++ (t ++ tail))) = m ∧ afterMethod (m ++ (sp ++ (t ++ tail))) = t ++ tail ∧
      targetOf (m ++ (sp ++ (t ++ tail))) = t := by
  have hword : word (m ++ (sp ++ (t ++ tail))) = m := by
    refine takeWhile_append_stop (fun c hc => decide_eq_true (hm c hc)) ?_
    intro c hc
    obtain ⟨s,sp,rfl⟩ := List.exists_cons_of_ne_nil hne
    obtain rfl : s = c := by simpa using hc
    simpa using hsp s (by simp)
  have hafter : afterMethod (m ++ (sp ++ (t ++ tail))) = t ++ tail := by
    obtain ⟨u,t,rfl⟩ := List.exists_cons_of_ne_nil ht0
    rw [afterMethod, hword, List.drop_left,
      List.dropWhile_append_of_pos fun c hc => decide_eq_true (hsp c hc),
      List.cons_append, List.dropWhile_cons_of_neg (by simpa using ht u (by simp))]
  refine ⟨hword,hafter,?_⟩
  rw [targetOf, hafter]
  refine takeWhile_append_stop (fun c hc => decide_eq_true (ht c hc)) ?_
  intro c hc
  simpa using htail c hc

theorem isSpace_ne_nul {c : CChar} (h : IsSpace c) : c ≠ 0 := by
  rintro rfl
  exact absurd h (by decide)

theorem RequestLine.method_solid (l : RequestLine) : ∀ c ∈ l.method, ¬IsSpace c := by
  cases l.known with
  | inl hpost => exact not_isSpace_of_strcaseeq hpost (by decide)
  | inr hget => exact not_isSpace_of_strcaseeq hget (by decide)

theorem RequestLine.method_length (l : RequestLine) : l.method.length < size/2 := by
  cases l.known with
  | inl hpost =>
    rw [strcaseeq_length hpost]
    decide
  | inr hget =>
    rw [strcaseeq_length hget]
    decide

theorem RequestLine.line_eq (l : RequestLine) :
    l.line = l.method ++ (l.blanks ++ (l.target ++ text l.tail)) := by
  have hmethod : 0 ∉ l.method := by
    cases l.known with
    | inl hpost => exact nul_notMem_of_strcaseeq hpost (by decide)
    | inr hget => exact nul_notMem_of_strcaseeq hget (by decide)
  have hblanks : 0 ∉ l.blanks := fun h => isSpace_ne_nul (l.blanks_space 0 h) rfl
  have htarget : 0 ∉ l.target := fun h => (l.target_solid 0 h).2 rfl
  rw [RequestLine.line, text_append hmethod, text_append hblanks, text_append htarget]

theorem RequestLine.nul_notMem (l : RequestLine) : 0 ∉ l.line := text_notMem _

theorem RequestLine.words (l : RequestLine) :
    word l.line = l.method ∧ targetOf l.line = l.target := by
  have htail : ∀ c ∈ (text l.tail).head?, IsSpace c := by
    intro c hc
    apply l.tail_space c
    cases ht : l.tail with
    | nil =>
      rw [ht] at hc
      cases hc
    | cons d tail =>
      have hd : IsSpace d := l.tail_space d (by rw [ht]; rfl)
      rwa [ht, text_cons (isSpace_ne_nul hd)] at hc
  rw [l.line_eq]
  obtain ⟨hword,-,htarget⟩ := words_eq l.method_solid l.blanks_ne l.blanks_space l.target_ne
    (fun c hc => (l.target_solid c hc).1) htail
  exact ⟨hword,htarget⟩

theorem RequestLine.parse_post {l : RequestLine} (h : strcaseeq l.method (cstr "POST") = true)
    (hfit : l.target.length < size/2) :
    parseRequest l.line = some (some ⟨l.method,l.target,[],true⟩) := by
  obtain ⟨hword,htarget⟩ := l.words
  have hreq : requestOf l.line = some ⟨l.method,l.target,[],true⟩ := by
    rw [requestOf_post (hword ▸ h), hword, htarget]
  rw [parseRequest_eq l.nul_notMem, hreq, hword]
  simp [l.method_length, hfit]

theorem RequestLine.parse_get {l : RequestLine} (h : strcaseeq l.method (cstr "GET") = true)
    (hfit : (pathPart l.target).length < size/2) :
    parseRequest l.line = some (some ⟨l.method,pathPart l.target,pathPart (queryPart l.target),
      ch '?' ∈ l.target⟩) := by
  obtain ⟨hword,htarget⟩ := l.words
  have hreq : requestOf l.line = some ⟨l.method,pathPart l.target,pathPart (queryPart l.target),
      ch '?' ∈ l.target⟩ := by
    rw [requestOf_get (hword ▸ h), hword, htarget]
  rw [parseRequest_eq l.nul_notMem, hreq, hword]
  simp [l.method_length, hfit]

end Words

/-- The line is taken apart at the first `?` of its target: path, complete query, and the flag. -/
def SplitsTarget (line t : List CChar) : Prop :=
  ∃ req, parseRequest line = some (some req) ∧ req.url = pathPart t ∧
    req.queryString = queryPart t ∧ (req.cgi = true ↔ ch '?' ∈ t)

/-- A `GET` line is split at the first `?` exactly if there is no second one. -/
theorem splitsTarget_iff (l : RequestLine) (hget : strcaseeq l.method (cstr "GET") = true)
    (hfit : (pathPart l.target).length < size/2) :
    SplitsTarget l.line l.target ↔ ch '?' ∉ queryPart l.target := by
  rw [SplitsTarget, l.parse_get hget hfit, ← pathPart_eq_self_iff]
  constructor
  · rintro ⟨req,hreq,-,hquery,-⟩
    obtain rfl := Option.some.inj (Option.some.inj hreq)
    exact hquery
  · exact fun hquery => ⟨_,rfl,rfl,hquery,decide_eq_true_iff⟩

theorem blank_ne : cstr " " ≠ [] := by decide
theorem blank_space : ∀ c ∈ cstr " ", IsSpace c := by decide

/-- A line with one blank in front of the target, and the protocol behind it. -/
def lineOf (m t : List CChar)
    (known : strcaseeq m (cstr "POST") = true ∨ strcaseeq m (cstr "GET") = true) (ht0 : t ≠ [])
    (ht : ∀ c ∈ t, ¬IsSpace c ∧ c ≠ 0) : RequestLine where
  method := m
  blanks := cstr " "
  target := t
  tail := cstr " HTTP/1.0\n"
  known := known
  blanks_ne := blank_ne
  blanks_space := blank_space
  target_ne := ht0
  target_solid := ht
  tail_space := by decide

/-- `Get /a?x=1 HTTP/1.0` -/
theorem splitsTarget_one :
    SplitsTarget (lineOf (cstr "Get") (cstr "/a?x=1") (by decide) (by decide) (by decide)).line
      (cstr "/a?x=1") :=
  (splitsTarget_iff (lineOf (cstr "Get") (cstr "/a?x=1") (by decide) (by decide) (by decide))
    (by decide) (by decide)).mpr (by decide)

/-- The second `?` ends the query. -/
theorem not_splitsTarget_two :
    ¬SplitsTarget (cstr "GET /a?x?y HTTP/1.0\n") (cstr "/a?x?y") := by
  rintro ⟨req,hreq,-,hquery,-⟩
  have hparse : parseRequest (cstr "GET /a?x?y HTTP/1.0\n") =
      some (some ⟨cstr "GET",cstr "/a",cstr "x",true⟩) := rfl
  rw [hparse] at hreq
  obtain rfl := Option.some.inj (Option.some.inj hreq)
  exact absurd hquery (by decide)

section Stat

/-- The path `stat` is asked about in `accept_request`. -/
def lookedUp (line : List CChar) : Option (List CChar) :=
  (parseRequest line).join.bind fun req =>
    if (rootPath req.url).length < size/2 then some (rootPath req.url) else none

/-- Nothing else of the file system is looked at. -/
theorem dispatch_congr {stat stat' : Stat} {sock : Stream}
    (h : ∀ path ∈ lookedUp (text (getLine size sock).1), stat path = stat' path) (env : Env)
    (fd : ℕ) : dispatch stat env fd sock = dispatch stat' env fd sock := by
  unfold dispatch
  generalize getLine size sock = line at h ⊢
  obtain ⟨requestLine,sock⟩ := line
  rcases hparse : parseRequest (text requestLine) with _ | _ | req
  · simp [hparse]
  · simp [hparse]
  · have hlocate : locate stat req = locate stat' req := by
      unfold locate
      by_cases hfit : (rootPath req.url).length < size/2
      · have hsame := h (rootPath req.url) (by simp [lookedUp, hparse, hfit])
        simp only [hfit, if_true, hsame]
      · simp [hfit]
    simp [hparse, hlocate]

/-- Both lines have the same file looked up. -/
def SameFile (line line' : List CChar) : Prop :=
  ∃ path, lookedUp line = some path ∧ lookedUp line' = some path

theorem pathPart_isPrefix (t : List CChar) : pathPart t <+: t := List.takeWhile_prefix _

theorem rootPath_length_le (url : List CChar) :
    (rootPath url).length ≤ root.length+url.length := by
  unfold rootPath
  split_ifs
  · rw [List.length_append]
  · exact Nat.le_add_right _ _

/-- The path of a target begins as the target does. -/
theorem head?_pathPart (t : List CChar) :
    (pathPart t).head? = some (ch '/') ↔ t.head? = some (ch '/') := by
  cases t with
  | nil => rfl
  | cons c t =>
    by_cases hmark : c = ch '?'
    · subst hmark
      rw [pathPart_mark]
      exact iff_of_false (by decide) fun h => absurd (Option.some.inj h) (by decide)
    · rw [pathPart_cons hmark]
      rfl

/-- A target behind `POST` and behind `GET` names the same file exactly if it has no query, or
stands for the root anyway. -/
theorem sameFile_iff {p g : RequestLine} (hpost : strcaseeq p.method (cstr "POST") = true)
    (hget : strcaseeq g.method (cstr "GET") = true) (htarget : p.target = g.target)
    (hfit : (root ++ p.target).length < size/2) :
    SameFile p.line g.line ↔ ch '?' ∉ p.target ∨ p.target.head? ≠ some (ch '/') := by
  rw [List.length_append] at hfit
  have hpath : (pathPart g.target).length ≤ p.target.length := by
    rw [htarget]
    exact (pathPart_isPrefix _).length_le
  have hp : lookedUp p.line = some (rootPath p.target) := by
    have hlen := rootPath_length_le p.target
    rw [lookedUp, RequestLine.parse_post hpost (by omega)]
    exact if_pos (hlen.trans_lt hfit)
  have hg : lookedUp g.line = some (rootPath (pathPart g.target)) := by
    have hlen := rootPath_length_le (pathPart g.target)
    rw [lookedUp, RequestLine.parse_get hget (by omega)]
    exact if_pos (hlen.trans_lt (by omega))
  have hsame : SameFile p.line g.line ↔ rootPath p.target = rootPath (pathPart p.target) := by
    rw [SameFile, hp, hg, htarget]
    constructor
    · rintro ⟨path,hpath,hpath'⟩
      exact (Option.some.inj hpath).trans (Option.some.inj hpath').symm
    · exact fun h => ⟨_,rfl,congrArg some h.symm⟩
  rw [hsame, ← pathPart_eq_self_iff]
  by_cases hslash : p.target.head? = some (ch '/')
  · have hhead := (head?_pathPart p.target).mpr hslash
    rw [rootPath, if_pos hslash, rootPath, if_pos hhead, List.append_cancel_left_eq, eq_comm,
      or_iff_left (not_not.mpr hslash)]
  · have hhead := mt (head?_pathPart p.target).mp hslash
    rw [rootPath, if_neg hslash, rootPath, if_neg hhead]
    exact iff_of_true rfl (.inr hslash)

theorem sameFile_math :
    SameFile (lineOf (cstr "POST") (cstr "/math_cgi") (by decide) (by decide) (by decide)).line
      (lineOf (cstr "GET") (cstr "/math_cgi") (by decide) (by decide) (by decide)).line :=
  (sameFile_iff (p := lineOf (cstr "POST") (cstr "/math_cgi") (by decide) (by decide) (by decide))
    (g := lineOf (cstr "GET") (cstr "/math_cgi") (by decide) (by decide) (by decide)) (by decide)
    (by decide) rfl (by decide)).mpr (by decide)

/-- With a query the file of a `POST` is one whose name contains the `?`. -/
theorem not_sameFile_query : ¬SameFile (cstr "POST /math_cgi?x=1 HTTP/1.0\n")
    (cstr "GET /math_cgi?x=1 HTTP/1.0\n") := by
  rintro ⟨path,hpost,hget⟩
  exact absurd (hpost.trans hget.symm) (by decide)

end Stat
end LibeventHttpd
