import LibeventHttpd.CgiMain
import LibeventHttpd.Exchange

/-! Form data on its way from a client to `handle_data` of either program. -/
namespace LibeventHttpd

/-- A request that brings form data to the program at `path`: in the query of a `GET`, or as what a
`POST` announces of its body. -/
inductive Message.Submits (stat : Stat) (path form : List CChar) (m : Message) : Prop
  | get {req : Request} (request : requestOf m.line = some req)
      (method : strcaseeq req.method (cstr "GET") = true)
      (file : req.file stat = some (path,true)) (query : req.queryString = form)
  | post {req : Request} {v : List CChar} (request : requestOf m.line = some req)
      (method : strcaseeq req.method (cstr "POST") = true)
      (file : req.file stat = some (path,true)) (value : lengthValue m.headers = some v)
      (length : integerIn v = form.length) (room : form.length < 1024) (sent : form <+: m.body)

section Submits
variable {stat : Stat} {env : Env} {path form : List CChar} {m : Message}

/-- The text that is put into the environment reads as the number that was announced. -/
theorem lengthText_of_value {hs : List (List CChar)} {v : List CChar}
    (hv : lengthValue hs = some v) : ∃ s, lengthText hs = some s ∧ atoi s = atoi v := by
  obtain ⟨before,w,after,rfl,rfl,hbefore⟩ := exists_lengthValue hv
  exact ⟨_,lengthText_first hbefore,atoi_newline w⟩

theorem Message.Submits.announced (h : m.Submits stat path form) : m.Announced stat := by
  intro req hreq hpost f hf hcgi
  cases h with
  | get request method file query =>
    obtain rfl := Option.some.inj (request.symm.trans hreq)
    exact absurd method (not_get_of_post hpost)
  | post request method file value length room sent =>
    refine ⟨fun v hv => ?_,fun hnone => ?_⟩
    · obtain rfl := Option.some.inj (value.symm.trans hv)
      rw [length]
      omega
    · rw [value] at hnone
      cases hnone

/-- The program that is started finds just the form data, whatever earlier requests have left in
the environment. -/
theorem Message.Submits.answer (h : m.Submits stat path form) (h0 : 0 ∉ form) :
    ∃ child, m.answer stat env = .program child ∧ child.path = path ∧
      mainOf 1024 child.env child.stdin = some form := by
  cases h with
  | get request method file query =>
    have hpost : ¬strcaseeq _ (cstr "POST") = true := fun hp => not_get_of_post hp method
    rw [Message.answer, request]
    simp only [file]
    refine ⟨_,rfl,?_,?_⟩
    · rw [Message.child, if_neg hpost]
    · rw [Message.child, if_neg hpost, mainOf_get rfl method]
      exact congrArg some query
  | post request method file value length room sent =>
    obtain ⟨rest,hbody⟩ := sent
    obtain ⟨s,hs,hatoi⟩ := lengthText_of_value value
    have hnum : announcedLength m.headers = form.length := by
      rw [announcedLength, value, Option.map_some, Option.getD_some, length]
    have hlen : atoi s = form.length := by
      rw [hatoi, (atoi_eq_integerIn_iff _).mpr (by rw [length]; omega), length]
    have htake : m.body.take form.length = form := by rw [← hbody, List.take_left]
    rw [Message.answer, request]
    simp only [file]
    refine ⟨_,rfl,?_,?_⟩
    · rw [Message.child, if_pos method]
    · rw [Message.child, if_pos method, hs, mainOf_post rfl method rfl, hlen, hnum,
        Int.toNat_natCast, htake, List.take_length, text_of_nul_notMem h0, if_pos]
      exact ⟨by omega,.inl room⟩

/-- Form data fits the buffer of the line or that of the program. -/
theorem Message.Submits.length_lt (h : m.Submits stat path form) : form.length < size := by
  cases h with
  | get request method file query =>
    have hreq := (requestOf_cases request).resolve_left fun h => by
      rw [h.2] at method
      exact not_get_of_post h.1 method
    obtain ⟨-,rfl⟩ := hreq
    rw [← query]
    have htarget : (targetOf m.line).length ≤ m.line.length :=
      ((List.takeWhile_prefix _).length_le.trans (List.dropWhile_sublist _).length_le).trans
        (List.drop_sublist _ _).length_le
    have hquery : (pathPart (queryPart (targetOf m.line))).length ≤ (targetOf m.line).length :=
      ((List.takeWhile_prefix _).length_le.trans (List.tail_sublist _).length_le).trans
        (List.dropWhile_sublist _).length_le
    have hline := m.line_fits
    change (pathPart (queryPart (targetOf m.line))).length < size
    omega
  | post request method file value length room sent => exact room.trans (by decide)

/-- Form data sent by either method arrives in `handle_data` as it was sent, and what is left on
the socket comes behind it. -/
theorem outcome_of_submits {site : Site} (h : m.Submits site.stat path form) (h0 : 0 ∉ form)
    (hfits : m.Fits site.stat) (fd : ℕ) :
    ∃ child, child.path = path ∧ mainOf 1024 child.env child.stdin = some form ∧
      outcome site env fd m.stream = (relayed (site.cgi child)).map fun sent =>
        ⟨sent,m.body.drop child.stdin.length,child.env,some child⟩ := by
  obtain ⟨child,hanswer,hpath,hmain⟩ := h.answer h0
  refine ⟨child,hpath,hmain,?_⟩
  rw [outcome_of_fits h.announced hfits, hanswer]
  rfl

end Submits
end LibeventHttpd
