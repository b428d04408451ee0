import LibeventHttpd.CChar

/-! The lexical rules of MySQL: words, numbers, quoted strings with escapes, comments. The lexer is
a machine that takes one character at a time. Hexadecimal and bit literals are words here, and
comments whose text a server may execute are `bad`. -/
namespace LibeventHttpd.Sql

/-- A literal or comment that is not closed gives `bad`. -/
inductive Token where
  | word (w : List CChar)
  | number (lexeme : List CChar)
  | str (value : List CChar)
  | mark (c : CChar)
  | bad
  deriving DecidableEq

/-- The part of a number that is being read. -/
inductive Part where
  | int
  | frac
  | exp
  | expSign
  | expDigits
  deriving DecidableEq

/-- What has been read of the current token. -/
inductive State where
  | blank
  | word (w : List CChar)
  | number (p : Part) (n : List CChar)
  | point
  | str (quote : CChar) (v : List CChar)
  | escape (quote : CChar) (v : List CChar)
  -- after a quote that ends the literal unless another one follows
  | closed (quote : CChar) (v : List CChar)
  | dash
  | dashes
  | slash
  | line
  | opened
  | block
  | star
  deriving DecidableEq

def quote : CChar := ch '"'
def backslash : CChar := ch '\\'

def IsLetter (c : CChar) : Prop := ch 'a' ≤ c ∧ c ≤ ch 'z' ∨ ch 'A' ≤ c ∧ c ≤ ch 'Z'

instance : DecidablePred IsLetter :=
  fun c => inferInstanceAs (Decidable (ch 'a' ≤ c ∧ c ≤ ch 'z' ∨ ch 'A' ≤ c ∧ c ≤ ch 'Z'))

/-- The characters of words; a byte from 128 on is negative as a `char`. -/
def IsIdent (c : CChar) : Prop :=
  IsLetter c ∨ IsDigit c ∨ c = ch '_' ∨ c = ch '$' ∨ c < 0

instance : DecidablePred IsIdent :=
  fun c => inferInstanceAs (Decidable (IsLetter c ∨ IsDigit c ∨ c = ch '_' ∨ c = ch '$' ∨ c < 0))

/-- `iscntrl` in the C locale. -/
def IsControl (c : CChar) : Prop := 0 ≤ c ∧ c < 32 ∨ c = 127

instance : DecidablePred IsControl :=
  fun c => inferInstanceAs (Decidable (0 ≤ c ∧ c < 32 ∨ c = 127))

/-- The characters a backslash and `c` stand for; before `%` and `_` the backslash stays. -/
def unescape (c : CChar) : List CChar :=
  if c = ch '0' then [0]
  else if c = ch 'b' then [8]
  else if c = ch 'n' then [10]
  else if c = ch 'r' then [13]
  else if c = ch 't' then [9]
  else if c = ch 'Z' then [26]
  else if c = ch '%' ∨ c = ch '_' then [backslash,c]
  else [c]

/-- The first character of a token: a mark is complete with it. -/
def begin (c : CChar) : List Token × State :=
  if IsSpace c then ([],.blank)
  else if c = quote ∨ c = ch '\'' then ([],.str c [])
  else if IsDigit c then ([],.number .int [c])
  else if IsIdent c then ([],.word [c])
  else if c = ch '.' then ([],.point)
  else if c = ch '-' then ([],.dash)
  else if c = ch '/' then ([],.slash)
  else if c = ch '#' then ([],.line)
  else ([.mark c],.blank)

/-- The tokens that a state completes at the end of the text. -/
def finish : State → List Token
  | .blank => []
  | .word w => [.word w]
  | .number .int n => [.number n]
  | .number .frac n => [.number n]
  | .number .exp n => [.word n]
  | .number .expSign n => [.word n.dropLast,.mark (n.getLastD 0)]
  | .number .expDigits n => [.number n]
  | .point => [.mark (ch '.')]
  | .str _ _ => [.bad]
  | .escape _ _ => [.bad]
  | .closed _ v => [.str v]
  | .dash => [.mark (ch '-')]
  | .dashes => []
  | .slash => [.mark (ch '/')]
  | .line => []
  | .opened => [.bad]
  | .block => [.bad]
  | .star => [.bad]

/-- A token ends before `c`, which begins the next one. -/
def next (s : State) (c : CChar) : List Token × State := (finish s ++ (begin c).1,(begin c).2)

/-- The state in which a number goes on with `c`, if it does. -/
def continues (p : Part) (n : List CChar) (c : CChar) : Option State :=
  match p with
  | .int =>
    if IsDigit c then some (.number .int (n ++ [c]))
    else if c = ch '.' then some (.number .frac (n ++ [c]))
    else if c = ch 'e' ∨ c = ch 'E' then some (.number .exp (n ++ [c]))
    else if IsIdent c then some (.word (n ++ [c]))
    else none
  | .frac =>
    if IsDigit c then some (.number .frac (n ++ [c]))
    else if c = ch 'e' ∨ c = ch 'E' then some (.number .exp (n ++ [c]))
    else none
  | .exp =>
    if IsDigit c then some (.number .expDigits (n ++ [c]))
    else if c = ch '+' ∨ c = ch '-' then some (.number .expSign (n ++ [c]))
    else if IsIdent c then some (.word (n ++ [c]))
    else none
  | .expSign => if IsDigit c then some (.number .expDigits (n ++ [c])) else none
  | .expDigits => if IsDigit c then some (.number .expDigits (n ++ [c])) else none

/-- One character: the tokens completed by it, and the state after it. -/
def step (s : State) (c : CChar) : List Token × State :=
  match s with
  | .blank => begin c
  | .word w => if IsIdent c then ([],.word (w ++ [c])) else next s c
  | .number p n =>
    match continues p n c with
    | some t => ([],t)
    | none => next s c
  | .point => if IsDigit c then ([],.number .frac [ch '.',c]) else next s c
  | .str q v =>
    if c = backslash then ([],.escape q v)
    else if c = q then ([],.closed q v)
    else ([],.str q (v ++ [c]))
  | .escape q v => ([],.str q (v ++ unescape c))
  | .closed q v => if c = q then ([],.str q (v ++ [q])) else next s c
  | .dash => if c = ch '-' then ([],.dashes) else next s c
  -- two dashes begin a comment only before a blank or a control character
  | .dashes =>
    if IsSpace c ∨ IsControl c then ([],if c = ch '\n' then .blank else .line)
    else if c = ch '-' then ([.mark (ch '-')],.dashes)
    else (.mark (ch '-')::(next .dash c).1,(next .dash c).2)
  | .slash => if c = ch '*' then ([],.opened) else next s c
  | .line => ([],if c = ch '\n' then .blank else .line)
  -- the text of a comment that begins with `!` may be executed
  | .opened =>
    if c = ch '!' then ([.bad],.block) else ([],if c = ch '*' then .star else .block)
  | .block => ([],if c = ch '*' then .star else .block)
  | .star => ([],if c = ch '/' then .blank else if c = ch '*' then .star else .block)

def lexFrom (s : State) : List CChar → List Token
  | [] => finish s
  | c::t => (step s c).1 ++ lexFrom (step s c).2 t

/-- The tokens of a text. -/
def lex (t : List CChar) : List Token := lexFrom .blank t

/-- The tokens that are complete before the rest of a text comes, and the state it comes in. -/
def scan (s : State) : List CChar → List Token × State
  | [] => ([],s)
  | c::t => ((step s c).1 ++ (scan (step s c).2 t).1,(scan (step s c).2 t).2)

theorem lexFrom_append (s : State) (t r : List CChar) :
    lexFrom s (t ++ r) = (scan s t).1 ++ lexFrom (scan s t).2 r := by
  induction t generalizing s with
  | nil => rfl
  | cons c t ih => rw [List.cons_append, lexFrom, ih, scan, List.append_assoc]

/-- A text that begins a new token after a word, a number or a literal. -/
def Delimited (t : List CChar) : Prop := ∀ c ∈ t.head?, c = ch ' ' ∨ c = ch ','

instance : DecidablePred Delimited :=
  fun t => inferInstanceAs (Decidable (∀ c ∈ t.head?, c = ch ' ' ∨ c = ch ','))

section Literals
variable {u t v w r : List CChar} {ts : List Token} {c q : CChar}

/-- The characters that have a meaning between double quotes. -/
def Special (c : CChar) : Prop := c = quote ∨ c = backslash

instance : DecidablePred Special :=
  fun c => inferInstanceAs (Decidable (c = quote ∨ c = backslash))

/-- The text between double quotes is the value itself: no quote, and no backslash but before `%`
or `_`. -/
def Verbatim : List CChar → Prop
  | [] => True
  | c::s => c ≠ quote ∧ (c = backslash → s.head? = some (ch '%') ∨ s.head? = some (ch '_')) ∧
      Verbatim s

instance : DecidablePred Verbatim := fun s => by
  induction s with
  | nil => exact instDecidableTrue
  | cons c s ih => exact inferInstanceAs (Decidable (_ ∧ (_ → _ ∨ _) ∧ Verbatim s))

theorem lexFrom_str_plain (hb : c ≠ backslash) (hq : c ≠ q) :
    lexFrom (.str q v) (c::t) = lexFrom (.str q (v ++ [c])) t := by
  simp [lexFrom, step, hb, hq]

theorem lexFrom_str_escape : lexFrom (.str q v) (backslash::c::t) =
    lexFrom (.str q (v ++ unescape c)) t := rfl

theorem lexFrom_str_quote : lexFrom (.str quote v) (quote::t) = lexFrom (.closed quote v) t := rfl

theorem lexFrom_closed_quote :
    lexFrom (.closed q v) (q::t) = lexFrom (.str q (v ++ [q])) t := by
  simp [lexFrom, step]

theorem lexFrom_next (s : State) (c : CChar) (h : step s c = next s c) :
    lexFrom s (c::t) = finish s ++ lexFrom .blank (c::t) := by
  rw [lexFrom, h, next, List.append_assoc]
  rfl

theorem lexFrom_closed (h : ∀ c ∈ t.head?, c ≠ q) :
    lexFrom (.closed q v) t = .str v::lexFrom .blank t := by
  cases t with
  | nil => rfl
  | cons c t => exact lexFrom_next _ c (if_neg (h c rfl))

/-- What has been read of a literal. -/
def State.literal : State → Option (List CChar)
  | .str _ v => some v
  | .escape _ v => some v
  | .closed _ v => some v
  | _ => none

/-- A literal only grows. -/
theorem literal_grows {s : State} (hs : s.literal = some v) (h : lexFrom s t = .str w::ts) :
    v <+: w := by
  induction t generalizing s v with
  | nil =>
    cases s with
    | closed q v' =>
      obtain rfl := Option.some.inj hs
      obtain rfl := Token.str.inj (List.cons.inj h).1
      exact List.prefix_refl _
    | str q v' => exact absurd (List.cons.inj h).1 (by simp)
    | escape q v' => exact absurd (List.cons.inj h).1 (by simp)
    | _ => cases hs
  | cons c t ih =>
    cases s with
    | str q v' =>
      obtain rfl := Option.some.inj hs
      rw [lexFrom, step] at h
      split_ifs at h
      · exact ih rfl h
      · exact ih rfl h
      · exact (List.prefix_append _ _).trans (ih rfl h)
    | escape q v' =>
      obtain rfl := Option.some.inj hs
      exact (List.prefix_append _ _).trans (ih rfl h)
    | closed q v' =>
      obtain rfl := Option.some.inj hs
      by_cases hc : c = q
      · subst hc
        rw [lexFrom_closed_quote] at h
        exact (List.prefix_append _ _).trans (ih rfl h)
      · rw [lexFrom_next (.closed q v') c (if_neg hc)] at h
        obtain rfl := Token.str.inj (List.cons.inj h).1
        exact List.prefix_refl _
    | _ => cases hs

theorem unescape_special (h : Special c) : unescape c = [c] := by
  cases h with
  | inl h => rw [h]; rfl
  | inr h => rw [h]; rfl

/-- Before any other character but `%` and `_` a backslash stands for one that is not special. -/
theorem unescape_other (h : ¬Special c) (hc : ¬(c = ch '%' ∨ c = ch '_')) :
    ∃ d, unescape c = [d] ∧ ¬Special d := by
  fun_cases unescape c with
  | case1 => exact ⟨0,rfl,by decide⟩
  | case2 => exact ⟨8,rfl,by decide⟩
  | case3 => exact ⟨10,rfl,by decide⟩
  | case4 => exact ⟨13,rfl,by decide⟩
  | case5 => exact ⟨9,rfl,by decide⟩
  | case6 => exact ⟨26,rfl,by decide⟩
  | case7 => exact absurd ‹_› hc
  | case8 => exact ⟨c,rfl,h⟩

theorem unescape_wild (h : c = ch '%' ∨ c = ch '_') : unescape c = [backslash,c] := by
  cases h with
  | inl h => rw [h]; rfl
  | inr h => rw [h]; rfl

/-- Two characters that stand for one special character. -/
def Pair (c d : CChar) : Prop := c = backslash ∧ Special d ∨ c = quote ∧ d = quote

theorem Pair.special {d : CChar} (h : Pair c d) : Special c ∧ Special d := by
  obtain ⟨rfl,hd⟩ | ⟨rfl,rfl⟩ := h
  · exact ⟨.inr rfl,hd⟩
  · exact ⟨.inl rfl,.inl rfl⟩

theorem lexFrom_pair {d : CChar} (h : Pair c d) :
    lexFrom (.str quote v) (c::d::t) = lexFrom (.str quote (v ++ [d])) t := by
  obtain ⟨rfl,hd⟩ | ⟨rfl,rfl⟩ := h
  · rw [lexFrom_str_escape, unescape_special hd]
  · rw [lexFrom_str_quote, lexFrom_closed_quote]

/-- Read on inside a literal, what delimits it becomes a part of it. -/
theorem literal_of_delimited (hr : Delimited r) (h : lexFrom (.str quote v) r = .str w::ts) :
    ∃ d, (d = ch ' ' ∨ d = ch ',') ∧ v ++ [d] <+: w := by
  cases r with
  | nil => exact absurd (List.cons.inj h).1 (by simp)
  | cons d r =>
    have hd := hr d rfl
    have hplain : d ≠ backslash ∧ d ≠ quote := by
      cases hd with
      | inl h => rw [h]; decide
      | inr h => rw [h]; decide
    rw [lexFrom_str_plain hplain.1 hplain.2] at h
    exact ⟨d,hd,literal_grows rfl h⟩

theorem not_special_delimiter {d : CChar} (hd : d = ch ' ' ∨ d = ch ',') : ¬Special d := by
  cases hd with
  | inl h => rw [h]; decide
  | inr h => rw [h]; decide

theorem not_special {c : CChar} (h : ¬Special c) : c ≠ backslash ∧ c ≠ quote :=
  ⟨fun hb => h (.inr hb),fun hq => h (.inl hq)⟩

/-- The quote that ends a text before a delimiter ends its literal. -/
theorem lexFrom_end (hr : Delimited r) :
    lexFrom (.str quote v) (quote::r) = .str v::lexFrom .blank r := by
  rw [lexFrom_str_quote, lexFrom_closed]
  exact fun c hc hq => not_special_delimiter (hr c hc) (.inl hq)

/-- What a special character can come to, where its literal `w` is closed later: it is taken with
the closing quote, it begins a pair, it is a backslash that stays, it ends the literal, or it
escapes a character that is not special. -/
theorem special_cases (hr : Delimited r) (hc : Special c)
    (h : lexFrom (.str quote v) (c::u ++ quote::r) = .str w::ts) :
    (∃ d, (d = ch ' ' ∨ d = ch ',') ∧ u = [] ∧ v ++ [quote] ++ [d] <+: w) ∨
    (∃ x s, u = x::s ∧ Pair c x ∧
      lexFrom (.str quote (v ++ [x])) (s ++ quote::r) = .str w::ts) ∨
    (∃ x s, u = x::s ∧ c = backslash ∧ (x = ch '%' ∨ x = ch '_') ∧ ¬Special x ∧
      lexFrom (.str quote (v ++ [backslash,x])) (s ++ quote::r) = .str w::ts) ∨
    w = v ∨ ∃ d, ¬Special d ∧ v ++ [d] <+: w := by
  cases u with
  | nil =>
    have hpair : Pair c quote := hc.symm.imp (⟨·,.inl rfl⟩) (⟨·,rfl⟩)
    rw [List.cons_append, List.nil_append, lexFrom_pair hpair] at h
    obtain ⟨d,hd,hpre⟩ := literal_of_delimited hr h
    exact .inl ⟨d,hd,rfl,hpre⟩
  | cons x s =>
    rw [List.cons_append, List.cons_append] at h
    by_cases hpair : Pair c x
    · rw [lexFrom_pair hpair] at h
      exact .inr (.inl ⟨x,s,rfl,hpair,h⟩)
    · cases hc with
      | inl hq =>
        subst hq
        have hx : ∀ d ∈ (x::(s ++ quote::r)).head?, d ≠ quote := by
          rintro d hd rfl
          exact hpair (.inr ⟨rfl,Option.some.inj hd⟩)
        rw [lexFrom_str_quote, lexFrom_closed hx] at h
        exact .inr (.inr (.inr (.inl (Token.str.inj (List.cons.inj h).1).symm)))
      | inr hb =>
        subst hb
        have hx : ¬Special x := fun hx => hpair (.inl ⟨rfl,hx⟩)
        rw [lexFrom_str_escape] at h
        by_cases hwild : x = ch '%' ∨ x = ch '_'
        · rw [unescape_wild hwild] at h
          exact .inr (.inr (.inl ⟨x,s,rfl,rfl,hwild,hx,h⟩))
        · obtain ⟨d,hun,hd⟩ := unescape_other hx hwild
          rw [hun] at h
          exact .inr (.inr (.inr (.inr ⟨d,hd,literal_grows rfl h⟩)))

/-- A literal whose text lags behind its value by special characters `t` never catches up. -/
theorem not_literal_of_lag (hr : Delimited r) (ht0 : t ≠ []) (ht : ∀ c ∈ t, Special c)
    (v : List CChar) : lexFrom (.str quote v) (u ++ quote::r) ≠ .str (v ++ (t ++ u))::ts := by
  induction hn : u.length using Nat.strong_induction_on generalizing u t v with
  | _ n ih =>
  intro h
  obtain ⟨a,t,rfl⟩ := List.exists_cons_of_ne_nil ht0
  have ha : Special a := ht a (by simp)
  -- the next character of the value is `a`
  have hnext {d : CChar} {e : List CChar} (hpre : v ++ d::e <+: v ++ (a::t ++ u)) : d = a :=
    (List.cons_prefix_cons.mp ((List.prefix_append_right_inj v).mp hpre)).1
  cases u with
  | nil =>
    rw [List.nil_append, lexFrom_end hr] at h
    have hlen := congrArg List.length (Token.str.inj (List.cons.inj h).1)
    simp at hlen
  | cons c u =>
    by_cases hc : Special c
    · obtain ⟨d,hd,rfl,hpre⟩ | ⟨x,s,rfl,hpair,h⟩ | ⟨x,s,rfl,-,-,hx,h⟩ | hw | ⟨d,hd,hpre⟩ :=
        special_cases hr hc h
      · rw [List.append_assoc, List.prefix_append_right_inj] at hpre
        have hmem : d ∈ a::t ++ [c] := hpre.subset (by simp)
        have hspecial : ∀ d ∈ a::t ++ [c], Special d := by
          rw [List.forall_mem_append]
          exact ⟨ht,by simpa using hc⟩
        exact not_special_delimiter hd (hspecial d hmem)
      · obtain rfl := hnext (literal_grows rfl h)
        have hshift : v ++ (x::t ++ c::x::s) = v ++ [x] ++ (t ++ [c,x] ++ s) := by simp
        rw [hshift] at h
        have hspecial : ∀ d ∈ t ++ [c,x], Special d := by
          rw [List.forall_mem_append]
          exact ⟨fun d hd => ht d (by simp [hd]),by simp [hpair.special]⟩
        refine ih s.length ?_ (by simp) hspecial (v ++ [x]) rfl h
        simp only [List.length_cons] at hn
        omega
      · have hpre := (List.prefix_append_right_inj v).mp (literal_grows rfl h)
        obtain ⟨-,hpre⟩ := List.cons_prefix_cons.mp hpre
        -- behind the backslash comes `x`, where the value has a special character
        cases t with
        | nil =>
          obtain rfl := (List.cons_prefix_cons.mp hpre).1
          exact hx hc
        | cons b t =>
          obtain rfl := (List.cons_prefix_cons.mp hpre).1
          exact hx (ht x (by simp))
      · have hlen := congrArg List.length hw
        simp at hlen
      · obtain rfl := hnext hpre
        exact hd ha
    · rw [List.cons_append, lexFrom_str_plain (not_special hc).1 (not_special hc).2] at h
      obtain rfl := hnext (literal_grows rfl h)
      exact hc ha

theorem verbatim_plain (hb : c ≠ backslash) (hq : c ≠ quote) : Verbatim (c::u) ↔ Verbatim u := by
  simp [Verbatim, hb, hq]

theorem verbatim_wild (h : c = ch '%' ∨ c = ch '_') :
    Verbatim (backslash::c::u) ↔ Verbatim u := by
  have hq : backslash ≠ quote := by decide
  have hplain : c ≠ backslash ∧ c ≠ quote := by
    cases h with
    | inl h => rw [h]; decide
    | inr h => rw [h]; decide
  rw [Verbatim, verbatim_plain hplain.1 hplain.2]
  simp [hq, h]

/-- A literal that denotes its own text may stand verbatim. -/
theorem verbatim_of_literal (hr : Delimited r) (v : List CChar)
    (h : lexFrom (.str quote v) (u ++ quote::r) = .str (v ++ u)::ts) : Verbatim u := by
  induction hn : u.length using Nat.strong_induction_on generalizing u v with
  | _ n ih =>
  cases u with
  | nil => trivial
  | cons c u =>
    rw [List.length_cons] at hn
    have hnext {d : CChar} {e : List CChar} (hpre : v ++ d::e <+: v ++ c::u) : d = c :=
      (List.cons_prefix_cons.mp ((List.prefix_append_right_inj v).mp hpre)).1
    by_cases hc : Special c
    · obtain ⟨d,-,rfl,hpre⟩ | ⟨x,s,rfl,hpair,h⟩ | ⟨x,s,rfl,rfl,hwild,-,h⟩ | hw | ⟨d,hd,hpre⟩ :=
        special_cases hr hc h
      · have hlen := hpre.length_le
        simp at hlen
      · obtain rfl := hnext (literal_grows rfl h)
        have hshift : v ++ x::x::s = v ++ [x] ++ ([x] ++ s) := by simp
        rw [hshift] at h
        exact absurd h (not_literal_of_lag hr (by simp) (by simpa using hc) (v ++ [x]))
      · have hshift : v ++ backslash::x::s = v ++ [backslash,x] ++ s := by simp
        rw [hshift] at h
        rw [verbatim_wild hwild]
        refine ih s.length ?_ (v ++ [backslash,x]) h rfl
        rw [List.length_cons] at hn
        omega
      · have hlen := congrArg List.length hw
        simp at hlen
      · obtain rfl := hnext hpre
        exact absurd hc hd
    · have hplain := not_special hc
      have hshift : v ++ c::u = v ++ [c] ++ u := by simp
      rw [List.cons_append, lexFrom_str_plain hplain.1 hplain.2, hshift] at h
      rw [verbatim_plain hplain.1 hplain.2]
      exact ih u.length (by omega) (v ++ [c]) h rfl

theorem literal_of_verbatim (hr : Delimited r) (h : Verbatim u) (v : List CChar) :
    lexFrom (.str quote v) (u ++ quote::r) = .str (v ++ u)::lexFrom .blank r := by
  induction hn : u.length using Nat.strong_induction_on generalizing u v with
  | _ n ih =>
  cases u with
  | nil => rw [List.nil_append, List.append_nil, lexFrom_end hr]
  | cons c u =>
    rw [List.length_cons] at hn
    obtain ⟨hq,hb,hu⟩ := h
    by_cases hc : c = backslash
    · subst hc
      cases u with
      | nil => exact absurd (hb rfl) (by simp)
      | cons x s =>
        have hwild : x = ch '%' ∨ x = ch '_' := (hb rfl).imp Option.some.inj Option.some.inj
        have hs : Verbatim s := hu.2.2
        have hshift : v ++ backslash::x::s = v ++ [backslash,x] ++ s := by simp
        rw [List.cons_append, List.cons_append, lexFrom_str_escape, unescape_wild hwild, hshift]
        refine ih s.length ?_ hs _ rfl
        rw [List.length_cons] at hn
        omega
    · have hshift : v ++ c::u = v ++ [c] ++ u := by simp
      rw [List.cons_append, lexFrom_str_plain hc hq, hshift]
      exact ih u.length (by omega) hu _ rfl

/-- A quoted text is a literal for itself exactly if it may stand verbatim, and then the rest of
the text is lexed behind it. -/
theorem literal_iff (hr : Delimited r) (v : List CChar) :
    lexFrom (.str quote v) (u ++ quote::r) = .str (v ++ u)::ts ↔
      Verbatim u ∧ ts = lexFrom .blank r := by
  constructor
  · intro h
    have hu := verbatim_of_literal hr v h
    rw [literal_of_verbatim hr hu, List.cons.injEq] at h
    exact ⟨hu,h.2.symm⟩
  · rintro ⟨hu,rfl⟩
    exact literal_of_verbatim hr hu v

end Literals

section Words
variable {t w : List CChar} {c : CChar}

def IsWord (w : List CChar) : Prop :=
  match w with
  | [] => False
  | c::w => begin c = ([],.word [c]) ∧ ∀ x ∈ w, IsIdent x

instance : DecidablePred IsWord := fun w =>
  match w with
  | [] => instDecidableFalse
  | c::w => inferInstanceAs (Decidable (begin c = ([],.word [c]) ∧ ∀ x ∈ w, IsIdent x))

theorem lexFrom_word_ident (hw : ∀ x ∈ w, IsIdent x) (v : List CChar) :
    lexFrom (.word v) (w ++ t) = lexFrom (.word (v ++ w)) t := by
  induction w generalizing v with
  | nil => rw [List.nil_append, List.append_nil]
  | cons c w ih =>
    have hstep : lexFrom (.word v) (c::(w ++ t)) = lexFrom (.word (v ++ [c])) (w ++ t) := by
      simp [lexFrom, step, hw c (by simp)]
    rw [List.cons_append, hstep, ih (fun x hx => hw x (by simp [hx])), List.append_assoc]
    rfl

/-- A word ends where the next character does not belong to it. -/
theorem lexFrom_word_end (h : ∀ c ∈ t.head?, ¬IsIdent c) (w : List CChar) :
    lexFrom (.word w) t = .word w::lexFrom .blank t := by
  cases t with
  | nil => rfl
  | cons c t => exact lexFrom_next (.word w) c (if_neg (h c rfl))

theorem lexFrom_word (hw : IsWord w) (h : ∀ c ∈ t.head?, ¬IsIdent c) :
    lexFrom .blank (w ++ t) = .word w::lexFrom .blank t := by
  cases w with
  | nil => exact hw.elim
  | cons c w =>
    have hbegin : lexFrom .blank (c::(w ++ t)) = lexFrom (.word [c]) (w ++ t) := by
      rw [lexFrom, step, hw.1]
      rfl
    rw [List.cons_append, hbegin, lexFrom_word_ident hw.2, lexFrom_word_end h]
    rfl

theorem Delimited.not_ident (h : Delimited t) : ∀ c ∈ t.head?, ¬IsIdent c := by
  intro c hc
  cases h c hc with
  | inl h => rw [h]; decide
  | inr h => rw [h]; decide

end Words

section Numbers
variable {u t n r : List CChar} {ts : List Token} {c : CChar} {p : Part}

/-- The numeric literal that the text is, lexed by itself. -/
def numberIn (u : List CChar) : Option (List CChar) :=
  match lex u with
  | [.number n] => some n
  | _ => none

/-- The text, lexed by itself, is one numeric literal. -/
def IsNumber (u : List CChar) : Prop := numberIn u ≠ none

instance : DecidablePred IsNumber := fun u => inferInstanceAs (Decidable (numberIn u ≠ none))

/-- What is written behind the text is a comment. -/
def OpenComment (u : List CChar) : Prop :=
  (scan .blank u).2 = .line ∨ (scan .blank u).2 = .dashes

instance : DecidablePred OpenComment := fun _ => inferInstanceAs (Decidable (_ ∨ _))

theorem numberIn_eq_some_iff : numberIn u = some n ↔ lex u = [.number n] := by
  unfold numberIn
  split
  · simp_all
  · next hno => exact iff_of_false (by simp) (hno n)

theorem IsNumber.lex_eq (h : IsNumber u) : lex u = [.number ((numberIn u).getD [])] := by
  obtain ⟨n,hn⟩ := Option.ne_none_iff_exists'.mp h
  rw [hn, Option.getD_some]
  exact numberIn_eq_some_iff.mp hn

theorem lexFrom_continues {s : State} (h : continues p n c = some s) :
    lexFrom (.number p n) (c::t) = lexFrom s t := by
  simp [lexFrom, step, h]

theorem not_continues_delimiter (h : c = ch ' ' ∨ c = ch ',') : continues p n c = none := by
  cases h with
  | inl h => subst h; cases p <;> rfl
  | inr h => subst h; cases p <;> rfl

/-- A delimiter ends a number. -/
theorem lexFrom_number_end (hr : Delimited r) (p : Part) (n : List CChar) :
    lexFrom (.number p n) r = finish (.number p n) ++ lexFrom .blank r := by
  cases r with
  | nil => exact (List.append_nil _).symm
  | cons d r =>
    apply lexFrom_next
    simp [step, not_continues_delimiter (hr d rfl)]

/-- A number is complete, and then nothing but blanks and comments came, or it comes at the end. -/
theorem number_cases (h : lex u = [.number n]) :
    (scan .blank u).1 = [.number n] ∧ ((scan .blank u).2 = .blank ∨ OpenComment u) ∨
      (scan .blank u).1 = [] ∧ ∃ p, (scan .blank u).2 = .number p n ∧
        finish (.number p n) = [.number n] := by
  have hall : (scan .blank u).1 ++ finish (scan .blank u).2 = [.number n] := by
    rw [← h, lex, ← List.append_nil u, lexFrom_append, List.append_nil]
    rfl
  unfold OpenComment
  generalize (scan .blank u).1 = done at hall ⊢
  generalize (scan .blank u).2 = s at hall ⊢
  cases s with
  | number p m =>
    cases p <;> simp [finish, List.append_eq_singleton_iff] at hall ⊢ <;> exact hall
  | _ => simp [finish, List.append_eq_singleton_iff] at hall ⊢ <;> exact hall

/-- A number without an open comment ends before a delimiter. -/
theorem lexFrom_number (h : lex u = [.number n]) (hopen : ¬OpenComment u) (hr : Delimited r) :
    lexFrom .blank (u ++ r) = .number n::lexFrom .blank r := by
  rw [lexFrom_append]
  obtain ⟨hdone,hs⟩ | ⟨hdone,p,hs,hfinish⟩ := number_cases h
  · rw [hdone, hs.resolve_right hopen]
    rfl
  · rw [hdone, hs, lexFrom_number_end hr, hfinish]
    rfl

/-- Behind a number with an open comment the rest is read as the comment. -/
theorem lexFrom_number_comment (h : lex u = [.number n]) (hopen : OpenComment u)
    (r : List CChar) : ∃ s, (s = .line ∨ s = .dashes) ∧
      lexFrom .blank (u ++ r) = .number n::lexFrom s r := by
  refine ⟨_,hopen,?_⟩
  rw [lexFrom_append]
  obtain ⟨hdone,-⟩ | ⟨-,p,hs,-⟩ := number_cases h
  · rw [hdone]
    rfl
  · rw [OpenComment, hs] at hopen
    simp at hopen

theorem number_iff (h : lex u = [.number n]) (hr : Delimited r)
    (hts : ∀ s, s = .line ∨ s = .dashes → lexFrom s r ≠ ts) :
    lexFrom .blank (u ++ r) = .number n::ts ↔ ¬OpenComment u ∧ ts = lexFrom .blank r := by
  by_cases hopen : OpenComment u
  · obtain ⟨s,hs,hrest⟩ := lexFrom_number_comment h hopen r
    rw [hrest, List.cons.injEq]
    exact iff_of_false (fun he => hts s hs he.2) fun hno => hno.1 hopen
  · rw [lexFrom_number h hopen hr, List.cons.injEq]
    simp [hopen, eq_comm]

theorem begin_digit (h : IsDigit c) : begin c = ([],.number .int [c]) := by
  have hquote : ¬(c = quote ∨ c = ch '\'') := by
    rintro (rfl | rfl)
    · exact absurd h (by decide)
    · exact absurd h (by decide)
  rw [begin, if_neg (not_isSpace_of_isDigit h), if_neg hquote, if_pos h]

end Numbers

section Length
variable {s s' : State} {c : CChar} {p : Part} {n : List CChar}

/-- The characters that a token takes at least. -/
def Token.length : Token → ℕ
  | .word w => w.length
  | .number n => n.length
  | .str v => v.length+2
  | .mark _ => 1
  | .bad => 0

def State.length : State → ℕ
  | .word w => w.length
  | .number _ n => max n.length 1
  | .str _ v => v.length+1
  | .escape _ v => v.length+2
  | .closed _ v => v.length+2
  | .point => 1
  | .dash => 1
  | .dashes => 2
  | .slash => 1
  | _ => 0

def lengths (ts : List Token) : ℕ := (ts.map Token.length).sum

@[simp] theorem lengths_nil : lengths [] = 0 := rfl

@[simp] theorem lengths_cons (t : Token) (ts : List Token) :
    lengths (t::ts) = t.length+lengths ts := rfl

@[simp] theorem lengths_append (ts us : List Token) :
    lengths (ts ++ us) = lengths ts+lengths us := by simp [lengths]

theorem lengths_finish (s : State) : lengths (finish s) ≤ s.length := by
  cases s with
  | number p n =>
    cases p
    case expSign =>
      simp only [finish, lengths_cons, lengths_nil, Token.length, State.length,
        List.length_dropLast]
      omega
    all_goals exact le_max_left _ _
  | _ => simp [finish, Token.length, State.length]

theorem lengths_begin (c : CChar) : lengths (begin c).1+(begin c).2.length ≤ 1 := by
  fun_cases begin c <;> simp [Token.length, State.length]

theorem lengths_next (s : State) (c : CChar) :
    lengths (next s c).1+(next s c).2.length ≤ s.length+1 := by
  have hfinish := lengths_finish s
  have hbegin := lengths_begin c
  simp only [next, lengths_append]
  omega

theorem length_continues (h : continues p n c = some s) : s.length ≤ n.length+1 := by
  cases p <;> simp only [continues] at h <;> split_ifs at h <;> obtain rfl := Option.some.inj h <;>
    simp [State.length]

theorem length_unescape_le (c : CChar) : (unescape c).length ≤ 2 := by
  unfold unescape
  split_ifs <;> simp

/-- A character makes what is read one longer at most. -/
theorem lengths_step (s : State) (c : CChar) :
    lengths (step s c).1+(step s c).2.length ≤ s.length+1 := by
  have hnext := lengths_next s c
  cases s with
  | blank => exact lengths_begin c
  | number p n =>
    rw [step]
    cases hgo : continues p n c with
    | none => exact hnext
    | some t =>
      have ht := length_continues hgo
      have hn : n.length ≤ (State.number p n).length := le_max_left _ _
      simp only [lengths_nil]
      omega
  | escape q v =>
    have hun := length_unescape_le c
    simp only [step, lengths_nil, State.length, List.length_append]
    omega
  | dashes =>
    have hdash := lengths_next .dash c
    rw [step]
    split_ifs
    · simp [State.length]
    · simp [State.length]
    · simp [Token.length, State.length]
    · simp only [lengths_cons, Token.length, State.length] at hdash ⊢
      omega
  | _ =>
    rw [step]
    split_ifs <;> first | exact hnext | simp [Token.length, State.length]

/-- The tokens of a text are not longer than it. -/
theorem lengths_lexFrom (s : State) (t : List CChar) :
    lengths (lexFrom s t) ≤ s.length+t.length := by
  induction t generalizing s with
  | nil => exact lengths_finish s
  | cons c t ih =>
    have hstep := lengths_step s c
    have hrest := ih (step s c).2
    rw [lexFrom, lengths_append, List.length_cons]
    omega

end Length

end LibeventHttpd.Sql
