import XinuCMips.Shell.Lexan

/-!
# The reference tokenizer

A line is read character by character, between tokens, in an ordinary token or in a
quoted string. `lexan` reports an ordinary token with a quote or a redirection appended
as an error, and so does the tokenizer when tokens have to stand apart.

* `scan_lexeme`, `scan_broken` — the tokenizer at the tokens of `lexan` and at its errors;
* `scan_gap`      — blanks between tokens make no difference to the tokenizer;
* `lexan_lexical` — `lexan` against the tokenizer.
-/

namespace Xinu.Shell

open CChars

structure Token where
  typ : Toktyp
  text : List UInt8
  deriving DecidableEq, Repr

/-- Where a character stands: between tokens, in an ordinary token or in a quoted string. -/
inductive Mode
  | between
  | word (w : List UInt8)
  | quote (q : UInt8) (w : List UInt8)
  deriving DecidableEq, Repr

inductive LexError
  | unclosed | appended
  deriving DecidableEq, Repr

abbrev Tokens := Except LexError (List Token)

/-- Tokens in front of others. -/
def Tokens.prepend (ts : List Token) : Tokens → Tokens
  | .error e => .error e
  | .ok us => .ok (ts ++ us)

/-- A character between tokens: a token of its own, or where it leads to. -/
def opens (c : UInt8) : Mode × List Token :=
  if isBlank c then (.between, [])
  else match single? c with
    | some typ => (.between, [⟨typ, [c]⟩])
    | none => if isQuote c then (.quote c [], []) else (.word [c], [])

/-- The reference tokenizer. With `apart`, a quote or a redirection that directly follows an
ordinary token is an error. -/
def scan (apart : Bool) : Mode → List UInt8 → Tokens
  | .between, [] => .ok []
  | .word w, [] => .ok [⟨.SH_TOK_OTHER, w⟩]
  | .quote _ _, [] => .error .unclosed
  | .between, c :: cs => (scan apart (opens c).1 cs).prepend (opens c).2
  | .word w, c :: cs =>
    if isPlain c then scan apart (.word (w ++ [c])) cs
    else if apart && isAppended c then .error .appended
    else ((scan apart (opens c).1 cs).prepend (opens c).2).prepend [⟨.SH_TOK_OTHER, w⟩]
  | .quote q w, c :: cs =>
    if c = q then (scan apart .between cs).prepend [⟨.SH_TOK_OTHER, w⟩]
    else scan apart (.quote q (w ++ [c])) cs

attribute [local simp] scan

/-- The tokens of a line. -/
def tokenize (apart : Bool) (line : List UInt8) : Tokens := scan apart .between line

-- ---------------------------------------------------------------------------
-- Tokens
-- ---------------------------------------------------------------------------

namespace Tokens

theorem prepend_nil (t : Tokens) : t.prepend [] = t := by
  cases t <;> rfl

theorem prepend_prepend (ts us : List Token) (t : Tokens) :
    (t.prepend us).prepend ts = t.prepend (ts ++ us) := by
  cases t with
  | error e => rfl
  | ok vs => exact congrArg Except.ok (List.append_assoc ts us vs).symm

end Tokens

variable {apart : Bool} {typ : Toktyp} {text raw rest gap a b cs : List UInt8}

theorem opens_blank {c : UInt8} (h : isBlank c = true) : opens c = (.between, []) := if_pos h

theorem opens_single {c : UInt8} (h : single? c = some typ) :
    opens c = (.between, [⟨typ, [c]⟩]) := by
  have hb : isBlank c = false := by
    rcases hb : isBlank c with _ | _
    · rfl
    · simp only [isBlank, Bool.or_eq_true, beq_iff_eq] at hb
      rcases hb with rfl | rfl <;> cases h
  rw [opens, hb, h]
  rfl

theorem opens_quote {c : UInt8} (h : isQuote c = true) : opens c = (.quote c [], []) := by
  simp only [isQuote, Bool.or_eq_true, beq_iff_eq] at h
  rcases h with rfl | rfl <;> rfl

theorem opens_plain {c : UInt8} (h : isPlain c = true) : opens c = (.word [c], []) := by
  simp only [isPlain, Bool.and_eq_true, bne_iff_ne] at h
  obtain ⟨⟨⟨⟨⟨⟨⟨⟨-, -⟩, hless⟩, hgreater⟩, hblank⟩, htab⟩, hamper⟩, hsq⟩, hdq⟩ := h
  simp [opens, isBlank, single?, isQuote, hless, hgreater, hblank, htab, hamper, hsq, hdq]

/-- Blanks in front of a token are skipped. -/
theorem scan_skip (cs : List UInt8) :
    scan apart .between (cs.dropWhile isBlank) = scan apart .between cs := by
  induction cs with
  | nil => rfl
  | cons c cs ih =>
    by_cases hc : isBlank c
    · rw [List.dropWhile_cons_of_pos hc, ih, scan, opens_blank hc, Tokens.prepend_nil]
    · rw [List.dropWhile_cons_of_neg hc]

/-- An ordinary token goes on with its plain characters. -/
theorem scan_plain {w : List UInt8} (h : ∀ x ∈ text, isPlain x = true) :
    scan apart (.word w) (text ++ rest) = scan apart (.word (w ++ text)) rest := by
  induction text generalizing w with
  | nil => rw [List.nil_append, List.append_nil]
  | cons c text ih =>
    rw [List.cons_append, scan, if_pos (h c List.mem_cons_self),
      ih fun x hx => h x (List.mem_cons_of_mem c hx), List.append_assoc, List.singleton_append]

theorem scan_quoted {q : UInt8} {w : List UInt8} (h : q ∉ text) :
    scan apart (.quote q w) (text ++ rest) = scan apart (.quote q (w ++ text)) rest := by
  induction text generalizing w with
  | nil => rw [List.nil_append, List.append_nil]
  | cons c text ih =>
    have hc : c ≠ q := fun hc => h (hc ▸ List.mem_cons_self)
    have htext : q ∉ text := fun hq => h (List.mem_cons_of_mem c hq)
    rw [List.cons_append, scan, if_neg hc, ih htext, List.append_assoc,
      List.singleton_append]

/-- An ordinary token ends where a blank or an ampersand follows, or the line ends. -/
theorem scan_word_end {w : List UInt8} (h : ∀ d ∈ rest.head?, isBlank d = true ∨ d = SH_AMPER) :
    scan apart (.word w) rest = (scan apart .between rest).prepend [⟨.SH_TOK_OTHER, w⟩] := by
  cases rest with
  | nil => rfl
  | cons d rest =>
    have hd := h d rfl
    have hplain : isPlain d = false := by
      simp only [isBlank, Bool.or_eq_true, beq_iff_eq] at hd
      rcases hd with (rfl | rfl) | rfl <;> decide
    have happ : ¬ (apart && isAppended d) = true := by
      rw [not_isAppended hd, Bool.and_false]
      exact Bool.false_ne_true
    simp only [scan, hplain, happ, Bool.false_eq_true, if_false]

/-- The tokenizer takes a token as `lexan` does. -/
theorem scan_lexeme (h : Lexeme typ text raw rest) :
    scan apart .between (raw ++ rest) = (scan apart .between rest).prepend [⟨typ, text⟩] := by
  cases h with
  | single hc =>
    rw [List.singleton_append, scan, opens_single hc]
  | @quoted q text rest hq hnot =>
    rw [List.cons_append, scan, opens_quote hq, Tokens.prepend_nil, List.append_assoc,
      scan_quoted hnot, List.singleton_append, scan, if_pos rfl, List.nil_append]
  | @word c text rest hp hr =>
    rw [List.cons_append, scan, opens_plain (hp c List.mem_cons_self), Tokens.prepend_nil,
      scan_plain fun x hx => hp x (List.mem_cons_of_mem c hx), List.singleton_append,
      scan_word_end hr]

theorem isAppended_not_plain {d : UInt8} (h : isAppended d = true) : isPlain d = false := by
  simp only [isAppended, Bool.or_eq_true, beq_iff_eq] at h
  rcases h with ((rfl | rfl) | rfl) | rfl <;> decide

/-- What is no token is an error of the tokenizer. -/
theorem scan_broken (h : Broken text raw) : ∃ e, scan true .between raw = .error e := by
  cases h with
  | @unclosed q text hq hnot =>
    refine ⟨.unclosed, ?_⟩
    have hend : scan true (.quote q []) (text ++ []) = scan true (.quote q ([] ++ text)) [] :=
      scan_quoted hnot
    rw [List.append_nil] at hend
    rw [scan, opens_quote hq, Tokens.prepend_nil, hend, scan]
  | @appended c text d rest hp hd =>
    refine ⟨.appended, ?_⟩
    rw [scan, opens_plain (hp c List.mem_cons_self), Tokens.prepend_nil,
      scan_plain fun x hx => hp x (List.mem_cons_of_mem c hx), scan, isAppended_not_plain hd,
      if_neg Bool.false_ne_true, hd, Bool.and_self, if_pos rfl]

-- ---------------------------------------------------------------------------
-- The scanner against the tokenizer
-- ---------------------------------------------------------------------------

/-- The last character of a token is no blank. -/
theorem Lexeme.last (h : Lexeme typ text raw rest) : ∀ d ∈ raw.getLast?, isBlank d = false := by
  have hplain : ∀ d, isPlain d = true → isBlank d = false := by
    intro d hd
    rcases hb : isBlank d with _ | _
    · rfl
    · simp only [isBlank, Bool.or_eq_true, beq_iff_eq] at hb
      rcases hb with rfl | rfl <;> exact absurd hd (by decide)
  cases h with
  | @single c typ rest hc =>
    intro d hd
    obtain rfl : c = d := by simpa using hd
    rcases hb : isBlank c with _ | _
    · rfl
    · simp only [isBlank, Bool.or_eq_true, beq_iff_eq] at hb
      rcases hb with rfl | rfl <;> cases hc
  | @quoted q text rest hq hnot =>
    intro d hd
    obtain rfl : q = d := by
      rw [← List.cons_append, List.getLast?_append] at hd
      simpa using hd
    simp only [isQuote, Bool.or_eq_true, beq_iff_eq] at hq
    rcases hq with rfl | rfl <;> decide
  | @word c text rest hp hr =>
    intro d hd
    exact hplain d (hp d (List.mem_of_getLast? hd))

theorem Tokens.prepend_eq_nil {ts : List Token} {t : Tokens} (h : t.prepend ts = .ok []) :
    ts = [] ∧ t = .ok [] := by
  cases t with
  | error e => cases h
  | ok us =>
    have hnil : ts ++ us = [] := Except.ok.inj h
    obtain ⟨rfl, rfl⟩ := List.append_eq_nil_iff.mp hnil
    exact ⟨rfl, rfl⟩

/-- An ordinary token or a quoted string that was begun gives a token or an error. -/
theorem scan_ne_nil (m : Mode) (hm : m ≠ .between) : scan apart m cs ≠ .ok [] := by
  induction cs generalizing m with
  | nil =>
    cases m with
    | between => exact absurd rfl hm
    | word w => exact nofun
    | quote q w => exact nofun
  | cons c cs ih =>
    cases m with
    | between => exact absurd rfl hm
    | word w =>
      rw [scan]
      split
      · exact ih _ nofun
      · split
        · exact nofun
        · exact fun h => absurd (Tokens.prepend_eq_nil h).1 (List.cons_ne_nil _ _)
    | quote q w =>
      rw [scan]
      split
      · exact fun h => absurd (Tokens.prepend_eq_nil h).1 (List.cons_ne_nil _ _)
      · exact ih _ nofun

/-- Characters without a token are blanks. -/
theorem blanks_of_scan (h : scan apart .between cs = .ok []) : ∀ x ∈ cs, isBlank x = true := by
  induction cs with
  | nil => exact nofun
  | cons c cs ih =>
    rw [scan] at h
    obtain ⟨hts, hrest⟩ := Tokens.prepend_eq_nil h
    have hc : isBlank c = true := by
      by_contra hb
      cases hs : single? c with
      | some typ =>
        rw [opens_single hs] at hts
        exact List.cons_ne_nil _ _ hts
      | none =>
        refine scan_ne_nil _ ?_ hrest
        simp only [opens, hb, hs]
        by_cases hq : isQuote c <;> simp [hq]
    rw [opens_blank hc] at hrest
    intro x hx
    rcases List.mem_cons.mp hx with rfl | hx
    · exact hc
    · exact ih hrest x hx

/-- A line with as many tokens as there is room for, and blanks behind them. -/
def Brimful (line : List UInt8) : Prop :=
  (∃ ts, tokenize true line = .ok ts ∧ ts.length = SHELL_MAXTOK) ∧
    ∃ d ∈ line.getLast?, isBlank d = true

/-- What the scanner has counted are the first tokens of the line, and the tokenizer finds
the other ones in what is left. -/
structure Agreeing (line cs : List UInt8) (s : Lexan) : Prop where
  tokens : ∃ ts, ts.length = s.ntok ∧ ts.map (·.typ) = s.toktyp ∧
    tokenize true line = (scan true .between cs).prepend ts
  last : if cs = [] then ∀ d ∈ line.getLast?, isBlank d = false else cs.getLast? = line.getLast?
  room : s.ntok ≤ SHELL_MAXTOK

theorem Agreeing.token {line p : List UInt8} {s : Lexan} (h : Agreeing line cs s)
    (hn : s.ntok < SHELL_MAXTOK) (hd : cs.dropWhile isBlank = raw ++ rest)
    (hlex : Lexeme typ text raw rest) : Agreeing line rest (s.token typ text p) := by
  obtain ⟨⟨ts, hlen, htyp, htok⟩, hlast, -⟩ := h
  obtain ⟨hraw, -⟩ := hlex.parts
  obtain ⟨skipped, hcs⟩ : ∃ skipped, cs = skipped ++ (raw ++ rest) :=
    ⟨cs.takeWhile isBlank, by rw [← hd, List.takeWhile_append_dropWhile]⟩
  have hne : cs ≠ [] := by
    rw [hcs]
    simp [hraw]
  rw [if_neg hne] at hlast
  refine ⟨⟨ts ++ [⟨typ, text⟩], ?_, ?_, ?_⟩, ?_, hn⟩
  · rw [List.length_append, hlen]
    rfl
  · rw [List.map_append, htyp]
    rfl
  · rw [htok, ← scan_skip, hd, scan_lexeme hlex, Tokens.prepend_prepend]
  · rw [← hlast, hcs]
    by_cases hrest : rest = []
    · rw [if_pos hrest, hrest, List.append_nil, List.getLast?_append_of_ne_nil _ hraw]
      exact hlex.last
    · rw [if_neg hrest, List.getLast?_append_of_ne_nil _ (by simp [hraw]),
        List.getLast?_append_of_ne_nil _ hrest]

/-- What the scanner returns, and when. -/
structure Result.Agrees (line : List UInt8) (r : Result) : Prop where
  syserr : r.ret = none ↔ (∃ e, tokenize true line = .error e) ∨
    (∃ ts, tokenize true line = .ok ts ∧ SHELL_MAXTOK < ts.length) ∨ Brimful line
  tokens : ∀ n, r.ret = some n →
    ∃ ts, tokenize true line = .ok ts ∧ n = ts.length ∧ r.toktyp = ts.map (·.typ)

theorem Agreeing.result {line : List UInt8} {s : Lexan} {r : Result} (h : Agreeing line cs s)
    (ho : Outcome cs s (.ret r)) : r.Agrees line := by
  obtain ⟨⟨ts, hlen, htyp, htok⟩, hlast, hroom⟩ := h
  cases ho with
  | eol hd hend =>
    rw [← scan_skip, hd] at htok
    have hall : tokenize true line = .ok ts := by
      rw [htok, scan, Tokens.prepend, List.append_nil]
    refine ⟨iff_of_false (Option.some_ne_none _) ?_, ?_⟩
    · rintro (⟨e, he⟩ | ⟨us, hus, hmany⟩ | ⟨⟨us, hus, hmax⟩, d, hlastd, hblank⟩)
      · rw [hall] at he
        cases he
      · rw [hall] at hus
        cases hus
        omega
      · rw [hall] at hus
        cases hus
        rcases hend with hnil | hlt
        · rw [if_pos hnil] at hlast
          rw [hlast d hlastd] at hblank
          cases hblank
        · omega
    · intro n hn
      exact ⟨ts, hall, by rw [hlen]; exact (Option.some.inj hn).symm, htyp.symm⟩
  | full hne hmax =>
    refine ⟨iff_of_true rfl ?_, nofun⟩
    rw [if_neg hne] at hlast
    cases hscan : scan true .between cs with
    | error e =>
      rw [hscan] at htok
      exact .inl ⟨e, htok⟩
    | ok us =>
      rw [hscan] at htok
      by_cases hus : us = []
      · -- nothing but blanks is left
        right
        right
        rw [hus, Tokens.prepend, List.append_nil] at htok
        refine ⟨⟨ts, htok, by omega⟩, ?_⟩
        rw [hus] at hscan
        obtain ⟨d, hd⟩ := List.getLast?_isSome.mpr hne |> Option.isSome_iff_exists.mp
        refine ⟨d, by rw [← hlast]; exact hd, ?_⟩
        have hblanks : ∀ x ∈ cs, isBlank x = true := blanks_of_scan hscan
        exact hblanks d (List.mem_of_getLast? hd)
      · refine .inr (.inl ⟨ts ++ us, htok, ?_⟩)
        have hpos := List.length_pos_iff.mpr hus
        rw [List.length_append]
        omega
  | broken hn hd hbroken =>
    refine ⟨iff_of_true rfl (.inl ?_), nofun⟩
    obtain ⟨e, he⟩ := scan_broken hbroken
    rw [← scan_skip, hd, he] at htok
    exact ⟨e, htok⟩

/-- `lexan` on a whole line. -/
theorem lexan_agrees {line p : List UInt8} (h : Line line p) :
    ∃ r, lexan p = some r ∧ r.Agrees line := by
  have hp : line.length < p.length + 1 := by
    obtain ⟨⟨t, rest, -, rfl⟩, -⟩ := h
    rw [List.length_append]
    omega
  refine Lexan.run_induction (I := Agreeing line) (fun h hn hd hlex => h.token hn hd hlex)
    (fun h ho => h.result ho) hp h ⟨⟨[], rfl, rfl, (Tokens.prepend_nil _).symm⟩, ?_, Nat.zero_le _⟩
  split
  · rename_i hnil
    subst hnil
    exact nofun
  · rfl

-- ---------------------------------------------------------------------------
-- Blanks between tokens
-- ---------------------------------------------------------------------------

/-- Where the next character stands. -/
def Mode.next (c : UInt8) : Mode → Mode
  | .between => (opens c).1
  | .word w => if isPlain c then .word (w ++ [c]) else (opens c).1
  | .quote q w => if c = q then .between else .quote q (w ++ [c])

/-- Where the characters of `a` lead to. -/
def Mode.after (m : Mode) (a : List UInt8) : Mode := a.foldl (fun m c => m.next c) m

/-- In front of `b` no token goes on: not a quoted string, and an ordinary token only if it
ends here anyway. -/
def Mode.Apart (b : List UInt8) : Mode → Prop
  | .between => True
  | .word _ => ∀ d ∈ b.head?, isBlank d = true ∨ d = SH_AMPER
  | .quote _ _ => False

/-- The place between `a` and `b` is before, between or after the tokens of the line. An
ordinary token and a quote or a redirection that is appended to it have no such place
between them. -/
def Boundary (a b : List UInt8) : Prop := (Mode.between.after a).Apart b

/-- Blanks at a boundary are skipped. -/
theorem scan_blanks {m : Mode} (hm : m.Apart b) (hgap : ∀ x ∈ gap, isBlank x = true) :
    scan apart m (gap ++ b) = scan apart m b := by
  have hbetween : scan apart .between (gap ++ b) = scan apart .between b := by
    rw [← scan_skip, List.dropWhile_append_of_pos hgap, scan_skip]
  cases m with
  | between => exact hbetween
  | word w =>
    have hhead : ∀ d ∈ (gap ++ b).head?, isBlank d = true ∨ d = SH_AMPER := by
      cases gap with
      | nil => exact hm
      | cons x gap =>
        intro d hd
        obtain rfl : x = d := by simpa using hd
        exact .inl (hgap x List.mem_cons_self)
    rw [scan_word_end hhead, scan_word_end hm, hbetween]
  | quote q w => exact hm.elim

/-- **Blanks at a boundary make no difference to the tokenizer.** -/
theorem scan_gap {m : Mode} (h : (m.after a).Apart b) (hgap : ∀ x ∈ gap, isBlank x = true) :
    scan apart m (a ++ (gap ++ b)) = scan apart m (a ++ b) := by
  induction a generalizing m with
  | nil => exact scan_blanks h hgap
  | cons c a ih =>
    have ih' : scan apart (m.next c) (a ++ (gap ++ b)) = scan apart (m.next c) (a ++ b) := ih h
    cases m with
    | between =>
      rw [Mode.next] at ih'
      rw [List.cons_append, List.cons_append, scan, scan, ih']
    | word w =>
      rw [Mode.next] at ih'
      rw [List.cons_append, List.cons_append, scan, scan]
      by_cases hc : isPlain c
      · rw [if_pos hc] at ih'
        rw [if_pos hc, if_pos hc, ih']
      · rw [if_neg hc] at ih'
        rw [if_neg hc, if_neg hc, ih']
    | quote q w =>
      rw [Mode.next] at ih'
      rw [List.cons_append, List.cons_append, scan, scan]
      by_cases hc : c = q
      · rw [if_pos hc] at ih'
        rw [if_pos hc, if_pos hc, ih']
      · rw [if_neg hc] at ih'
        rw [if_neg hc, if_neg hc, ih']

/-- The lexical grammar of the shell, but for lines that are brimful: what is an error, which
tokens there are otherwise, and that blanks between tokens do not matter. -/
structure Lexical : Prop where
  syserr : ∀ line p, Line line p → line.length ≤ SHELL_BUFLEN → ¬ Brimful line →
    ∃ r, lexan p = some r ∧ (r.ret = none ↔ (∃ e, tokenize true line = .error e) ∨
      ∃ ts, tokenize true line = .ok ts ∧ SHELL_MAXTOK < ts.length)
  tokens : ∀ line p, Line line p → line.length ≤ SHELL_BUFLEN → ¬ Brimful line →
    ∀ ts, tokenize true line = .ok ts → ts.length ≤ SHELL_MAXTOK →
    ∃ r, lexan p = some r ∧ r.ret = some ts.length ∧ r.toktyp = ts.map (·.typ)
  blanks : ∀ a gap b p p', Boundary a b → (∀ x ∈ gap, isBlank x = true) →
    Line (a ++ b) p → Line (a ++ (gap ++ b)) p' →
    ¬ Brimful (a ++ b) → ¬ Brimful (a ++ (gap ++ b)) →
    ∃ r r', lexan p = some r ∧ lexan p' = some r' ∧ r.ret = r'.ret ∧
      (r.ret ≠ none → r.toktyp = r'.toktyp)

theorem lexan_lexical : Lexical := by
  constructor
  · intro line p h _ hbrim
    obtain ⟨r, hr, hsyserr, -⟩ := lexan_agrees h
    refine ⟨r, hr, hsyserr.trans ⟨?_, ?_⟩⟩
    · rintro (he | hmany | hb)
      · exact .inl he
      · exact .inr hmany
      · exact absurd hb hbrim
    · rintro (he | hmany)
      · exact .inl he
      · exact .inr (.inl hmany)
  · intro line p h _ hbrim ts hts hle
    obtain ⟨r, hr, hsyserr, htokens⟩ := lexan_agrees h
    have hret : r.ret ≠ none := by
      intro hnone
      rcases hsyserr.mp hnone with ⟨e, he⟩ | ⟨us, hus, hmany⟩ | hb
      · rw [hts] at he
        cases he
      · rw [hts] at hus
        cases hus
        omega
      · exact hbrim hb
    obtain ⟨n, hn⟩ := Option.ne_none_iff_exists'.mp hret
    obtain ⟨us, hus, hlen, htyp⟩ := htokens n hn
    rw [hts] at hus
    cases hus
    exact ⟨r, hr, by rw [hn, hlen], htyp⟩
  · intro a gap b p p' hab hgap h h' hbrim hbrim'
    have hsame : tokenize true (a ++ (gap ++ b)) = tokenize true (a ++ b) := scan_gap hab hgap
    obtain ⟨r, hr, hsyserr, htokens⟩ := lexan_agrees h
    obtain ⟨r', hr', hsyserr', htokens'⟩ := lexan_agrees h'
    rw [hsame] at hsyserr' htokens'
    have hnone : r.ret = none ↔ r'.ret = none := by
      rw [hsyserr, hsyserr']
      simp only [hbrim, hbrim', or_false]
    refine ⟨r, r', hr, hr', ?_, ?_⟩
    · cases hret : r.ret with
      | none => exact (hnone.mp hret).symm
      | some n =>
        have hret' : r'.ret ≠ none := fun h0 => by
          rw [hnone.mpr h0] at hret
          cases hret
        obtain ⟨n', hn'⟩ := Option.ne_none_iff_exists'.mp hret'
        obtain ⟨ts, hts, hlen, -⟩ := htokens n hret
        obtain ⟨ts', hts', hlen', -⟩ := htokens' n' hn'
        rw [hts] at hts'
        cases hts'
        rw [hn', hlen, hlen']
    · intro hsome
      obtain ⟨n, hn⟩ := Option.ne_none_iff_exists'.mp hsome
      have hret' : r'.ret ≠ none := fun h0 => hsome (hnone.mpr h0)
      obtain ⟨n', hn'⟩ := Option.ne_none_iff_exists'.mp hret'
      obtain ⟨ts, hts, -, htyp⟩ := htokens n hn
      obtain ⟨ts', hts', -, htyp'⟩ := htokens' n' hn'
      rw [hts] at hts'
      cases hts'
      rw [htyp, htyp']

/-- `a>b` has three tokens and no quote, and is an error. -/
theorem lexan_appended : ¬ ∀ line p, Line line p → line.length ≤ SHELL_BUFLEN →
    ∃ r, lexan p = some r ∧ (r.ret = none ↔ tokenize false line = .error .unclosed ∨
      ∃ ts, tokenize false line = .ok ts ∧ SHELL_MAXTOK < ts.length) := by
  intro h
  obtain ⟨r, hr, hret⟩ := h [97, SH_GREATER, 98] [97, SH_GREATER, 98, SH_NEWLINE]
    ⟨⟨SH_NEWLINE, [], by decide, rfl⟩, by decide +kernel⟩ (by decide +kernel)
  have hnone : r.ret = none := by
    have hrun : (lexan [97, SH_GREATER, 98, SH_NEWLINE]).map (·.ret) = some none := by decide
    rw [hr] at hrun
    exact Option.some.inj hrun
  have htok : tokenize false [97, SH_GREATER, 98] = .ok [⟨.SH_TOK_OTHER, [97]⟩,
      ⟨.SH_TOK_GREATER, [SH_GREATER]⟩, ⟨.SH_TOK_OTHER, [98]⟩] := by rfl
  rcases hret.mp hnone with he | ⟨ts, hts, hmany⟩
  · rw [htok] at he
    cases he
  · rw [htok] at hts
    cases hts
    exact absurd hmany (by decide)

end Xinu.Shell
