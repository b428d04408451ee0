import LibeventHttpd.RequestTarget

/-! The way of a posted body to the standard input of the program it is meant for. -/
namespace LibeventHttpd

section Headers

theorem not_cutAtEnd {h : List CChar} (hline : HeaderLine h) (hl : h.length ≤ 1022) :
    ¬CutAtEnd h := by
  have hpos := List.length_pos_of_ne_nil hline.1
  unfold CutAtEnd
  omega

/-- The header with the length is found in any place, and its value is the one returned. -/
theorem getContentLength_found {hs1 hs2 : List (List CChar)} {v : List CChar} {n : ℕ}
    (hh : ∀ h ∈ hs1 ++ (lengthName ++ v)::hs2, HeaderLine h ∧ 0 ∉ h ∧ h.length ≤ 1022)
    (hone : ∀ h ∈ hs1, ¬lengthName <+: h) (hv : Decimal v n) (hn : n < 2^31) (body : Stream) :
    ∃ env, getContentLength (headerBlock (hs1 ++ (lengthName ++ v)::hs2) ++ body) =
      some ⟨n,some env,headerBlock hs2 ++ body⟩ := by
  obtain ⟨hline,h0,hl⟩ := hh (lengthName ++ v) (by simp)
  have hlen : lengthName.length = 15 := rfl
  have hnul : 0 ∉ lengthName ++ v ++ [ch '\n'] := by
    rw [List.mem_append, not_or]
    exact ⟨h0,by decide⟩
  have htmp : (text (lengthName ++ v ++ [ch '\n'])).drop 15 = v ++ [ch '\n'] := by
    rw [text_of_nul_notMem hnul, List.append_assoc, ← hlen, List.drop_left]
  have hfit : (cstr "CONTENT_LENGTH=" ++ (v ++ [ch '\n'])).length < 10240/2 := by
    have hc : (cstr "CONTENT_LENGTH=").length = 15 := rfl
    rw [List.length_append] at hl
    rw [List.length_append, List.length_append, hc, List.length_singleton]
    omega
  refine ⟨v ++ [ch '\n'],?_⟩
  rw [headerBlock_split, getContentLength_skip, getContentLength_line hline.2 (by omega),
    if_pos (List.prefix_append _ _)]
  · simp only [htmp, hfit, if_true]
    rw [atoi_decimal hv hn (by decide)]
  · intro h hmem
    obtain ⟨hline,-,hl⟩ := hh h (by simp [hmem])
    exact ⟨hline.2,by omega,hone h hmem⟩

/-- The child is fed the first `n` bytes after the headers that are left. -/
theorem feedChild_block {hs : List (List CChar)}
    (hh : ∀ h ∈ hs, HeaderLine h ∧ 0 ∉ h ∧ h.length ≤ 1022) (n : ℕ) (body : Stream) :
    feedChild n (headerBlock hs ++ body) = (body.take n,body.drop n) := by
  have hskip := clearHead_headerBlock (fun h hmem =>
    ⟨(hh h hmem).1,not_cutAtEnd (hh h hmem).1 (hh h hmem).2.2⟩) body
  rw [feedChild, hskip, Int.toNat_natCast, copyBody_eq]

end Headers

section Accept

/-- When `accept_request` returns after a call of `exec_response`, the program it ran had the bytes
fed to it on its standard input. -/
theorem acceptRequest_exec {stat : Stat} {cgi : Child → List CChar} {env : Env} {fd : ℕ}
    {sock : Stream} {call : Call} {r : Accepted}
    (hcall : dispatch stat env fd sock = some (.exec call))
    (hr : acceptRequest stat cgi env fd sock = some r) :
    ∃ child, r.child = some child ∧ child.path = call.path ∧
      (child.stdin,r.sock) = feedChild call.contentLength call.sock := by
  simp only [acceptRequest, hcall, execResponse, Option.bind_eq_bind, Option.bind_some] at hr
  split_ifs at hr
  · obtain ⟨e,he,hr⟩ := Option.bind_eq_some_iff.mp hr
    obtain ⟨buf,-,he⟩ := Option.bind_eq_some_iff.mp he
    obtain rfl := Option.some.inj he
    obtain rfl := Option.some.inj hr
    exact ⟨_,rfl,rfl,rfl⟩
  · simp at hr

/-- A request line `POST url …`, in any spelling of the method, that fits the buffers and names
a program. -/
structure PostLine (stat : Stat) where
  method : List CChar
  blanks : List CChar
  url : List CChar
  tail : List CChar
  mode : ℕ
  post : strcaseeq method (cstr "POST") = true
  blanks_ne : blanks ≠ []
  blanks_space : ∀ c ∈ blanks, IsSpace c
  url_ne : url ≠ []
  url_solid : ∀ c ∈ url, ¬IsSpace c
  tail_space : ∀ c ∈ tail.head?, IsSpace c
  plain : ∀ c ∈ method ++ (blanks ++ (url ++ tail)), Plain c ∧ c ≠ 0
  fits : (method ++ (blanks ++ (url ++ tail))).length < size-1
  url_fits : url.length < size/2
  path_fits : (rootPath url).length < size/2
  stat_eq : stat (rootPath url) = some mode
  not_dir : isDir mode = false
  exec : isExec mode = true

/-- The characters of the line, without its end. -/
def PostLine.text {stat : Stat} (l : PostLine stat) : List CChar :=
  l.method ++ (l.blanks ++ (l.url ++ l.tail))

/-- The line with its end, as a request line. -/
def PostLine.request {stat : Stat} (l : PostLine stat) : RequestLine where
  method := l.method
  blanks := l.blanks
  target := l.url
  tail := l.tail ++ [ch '\n']
  known := .inl l.post
  blanks_ne := l.blanks_ne
  blanks_space := l.blanks_space
  target_ne := l.url_ne
  target_solid := fun c hc => ⟨l.url_solid c hc,(l.plain c (by simp [hc])).2⟩
  tail_space := by
    intro c hc
    cases ht : l.tail with
    | nil =>
      rw [ht] at hc
      obtain rfl : ch '\n' = c := by simpa using hc
      decide
    | cons t tail =>
      rw [ht] at hc
      exact l.tail_space c (by rw [ht]; exact hc)

theorem PostLine.request_line {stat : Stat} (l : PostLine stat) :
    l.request.line = LibeventHttpd.text (l.text ++ [ch '\n']) := by
  simp [RequestLine.line, PostLine.request, PostLine.text]

/-- Header lines of at most 1022 characters, just one of which gives a length, in any place. -/
structure PostHeaders (n : ℕ) where
  before : List (List CChar)
  value : List CChar
  after : List (List CChar)
  decimal : Decimal value n
  line : ∀ h ∈ before ++ (lengthName ++ value)::after, HeaderLine h ∧ 0 ∉ h ∧ h.length ≤ 1022
  one : ∀ h ∈ before ++ after, ¬lengthName <+: h

def PostHeaders.block {n : ℕ} (h : PostHeaders n) : Stream :=
  headerBlock (h.before ++ (lengthName ++ h.value)::h.after)

/-- A post to a program calls `exec_response` with the socket before the headers that are left. -/
theorem dispatch_post {stat : Stat} (l : PostLine stat) {n : ℕ} (h : PostHeaders n)
    (hn : n < 2^31) (env : Env) (fd : ℕ) (body : Stream) :
    ∃ call, dispatch stat env fd (l.text ++ (crlf ++ (h.block ++ body))) = some (.exec call) ∧
      call.path = rootPath l.url ∧ call.contentLength = n ∧
      call.sock = headerBlock h.after ++ body := by
  obtain ⟨cl,hcl⟩ := getContentLength_found h.line (fun g hg => h.one g (by simp [hg])) h.decimal
    hn body
  have hline : getLine size (l.text ++ (crlf ++ (h.block ++ body))) =
      (l.text ++ [ch '\n'],h.block ++ body) :=
    lineFrom_short (fun c hc => (l.plain c hc).1) l.fits _
  have hparse : parseRequest (text (l.text ++ [ch '\n'])) =
      some (some ⟨l.method,l.url,[],true⟩) := by
    rw [← l.request_line]
    exact RequestLine.parse_post l.post l.url_fits
  have hlocate : locate stat ⟨l.method,l.url,[],true⟩ = some (some (rootPath l.url,true)) := by
    rw [locate]
    simp [l.path_fits, l.stat_eq, l.not_dir, l.exec]
  have hbody : bodyLength l.method (h.block ++ body) =
      some ⟨n,some cl,headerBlock h.after ++ body⟩ := by
    rw [bodyLength, if_pos l.post]
    exact hcl
  refine ⟨⟨{ env with contentLength := some cl },rootPath l.url,l.method,[],n,
    headerBlock h.after ++ body⟩,dispatch_exec_iff.mpr ⟨?_,_,_,⟨n,some cl,_⟩,?_,hlocate,?_,rfl⟩,
    rfl,rfl,rfl⟩
  · rw [hline]
    simp
  · rw [hline]
    exact hparse
  · rw [hline]
    exact hbody

/-- The program gets exactly the first `n` bytes after the empty line, and reading stops there. -/
theorem post_body {stat : Stat} (l : PostLine stat) {n : ℕ} (h : PostHeaders n) (hn : n < 2^31)
    (env : Env) (fd : ℕ) (body : Stream) :
    ∃ call, dispatch stat env fd (l.text ++ (crlf ++ (h.block ++ body))) = some (.exec call) ∧
      call.path = rootPath l.url ∧
      feedChild call.contentLength call.sock = (body.take n,body.drop n) ∧
      ∀ cgi r, acceptRequest stat cgi env fd (l.text ++ (crlf ++ (h.block ++ body))) = some r →
        ∃ child, r.child = some child ∧ child.stdin = body.take n ∧ r.sock = body.drop n := by
  obtain ⟨call,hcall,hpath,hlen,hsock⟩ := dispatch_post l h hn env fd body
  have hfeed : feedChild call.contentLength call.sock = (body.take n,body.drop n) := by
    rw [hlen, hsock]
    exact feedChild_block (fun g hg => h.line g (by simp [hg])) n body
  refine ⟨call,hcall,hpath,hfeed,fun cgi r hr => ?_⟩
  obtain ⟨child,hchild,-,hstdin⟩ := acceptRequest_exec hcall hr
  rw [hfeed] at hstdin
  exact ⟨child,hchild,Prod.mk.inj hstdin⟩

/-- `POST /math_cgi HTTP/1.0` -/
def mathLine : PostLine (fun _ => some 0o100755) where
  method := cstr "POST"
  blanks := cstr " "
  url := cstr "/math_cgi"
  tail := cstr " HTTP/1.0"
  mode := 0o100755
  post := by decide
  blanks_ne := by decide
  blanks_space := by decide
  url_ne := by decide
  url_solid := by decide
  tail_space := by decide
  plain := by decide
  fits := by decide
  url_fits := by decide
  path_fits := by decide
  stat_eq := rfl
  not_dir := by decide
  exec := by decide

def mathHeaders : PostHeaders 3 where
  before := [cstr "Host: a"]
  value := cstr " 3"
  after := [cstr "Accept: b"]
  decimal := ⟨cstr " ",cstr "3",[],by decide⟩
  line := by decide
  one := by decide

theorem post_body_3 : ∃ call, dispatch (fun _ => some 0o100755) ⟨none,none,none⟩ 3
      (mathLine.text ++ (crlf ++ (mathHeaders.block ++ cstr "x=1&y"))) = some (.exec call) ∧
    call.path = rootPath mathLine.url ∧
    feedChild call.contentLength call.sock = (cstr "x=1",cstr "&y") ∧
    ∀ cgi r, acceptRequest (fun _ => some 0o100755) cgi ⟨none,none,none⟩ 3
        (mathLine.text ++ (crlf ++ (mathHeaders.block ++ cstr "x=1&y"))) = some r →
      ∃ child, r.child = some child ∧ child.stdin = cstr "x=1" ∧ r.sock = cstr "&y" :=
  post_body mathLine mathHeaders (by decide) _ _ (cstr "x=1&y")

end Accept
end LibeventHttpd
