import Mathlib.Data.List.TakeWhile
import XinuCMips.Lib.CChars
import XinuCMips.Tty.Device

/-!
# `lexan`

The scanner of the shell. A pointer into the line is the memory from there on, and a
read behind that memory has no result. `tokbuf`, `tok` and `toktyp` are written one after
the other only, so each of them is the list of what was stored.

* `round_cases` — all that one round of the scanner can do;
* `run_some`    — a line that is ended is scanned to its end;
* `lexan_inside` — what is stored, and that there is room for it.
-/

namespace Xinu.Shell

open CChars

/-- `TY_IBUFLEN+1`. -/
def SHELL_BUFLEN : Nat := Tty.TY_IBUFLEN + 1
def SHELL_MAXTOK : Nat := 32

def SH_NEWLINE : UInt8 := 10
def SH_AMPER : UInt8 := 38
def SH_BLANK : UInt8 := 32
def SH_TAB : UInt8 := 9
def SH_SQUOTE : UInt8 := 39
def SH_DQUOTE : UInt8 := 34
def SH_LESS : UInt8 := 60
def SH_GREATER : UInt8 := 62

/-- The token types. -/
inductive Toktyp
  | SH_TOK_AMPER | SH_TOK_LESS | SH_TOK_GREATER | SH_TOK_OTHER
  deriving DecidableEq, Repr

-- ---------------------------------------------------------------------------
-- Characters
-- ---------------------------------------------------------------------------

def isBlank (ch : UInt8) : Bool := ch == SH_BLANK || ch == SH_TAB

def isEol (ch : UInt8) : Bool := ch == SH_NEWLINE || ch == NULLCH

def isQuote (ch : UInt8) : Bool := ch == SH_SQUOTE || ch == SH_DQUOTE

/-- The type of a token of one character. -/
def single? (ch : UInt8) : Option Toktyp :=
  if ch = SH_AMPER then some .SH_TOK_AMPER
  else if ch = SH_LESS then some .SH_TOK_LESS
  else if ch = SH_GREATER then some .SH_TOK_GREATER
  else none

/-- A character that goes on with an ordinary token. -/
def isPlain (ch : UInt8) : Bool :=
  ch != SH_NEWLINE && ch != NULLCH && ch != SH_LESS && ch != SH_GREATER && ch != SH_BLANK &&
    ch != SH_TAB && ch != SH_AMPER && ch != SH_SQUOTE && ch != SH_DQUOTE

/-- A character that may not follow an ordinary token directly. -/
def isAppended (ch : UInt8) : Bool :=
  ch == SH_SQUOTE || ch == SH_DQUOTE || ch == SH_LESS || ch == SH_GREATER

-- ---------------------------------------------------------------------------
-- The function
-- ---------------------------------------------------------------------------

/-- The variables of `lexan`; `tbindex` is the number of characters in `tokbuf`. -/
structure Lexan where
  p : List UInt8
  ntok : Nat
  tokbuf : List UInt8
  tok : List Nat
  toktyp : List Toktyp
  deriving DecidableEq, Repr

/-- A result: what is returned, `none` for SYSERR, with what the arrays hold, and `*tlen`
when it is set. -/
structure Result where
  ret : Option Nat
  tlen : Option Nat
  ntok : Nat
  tokbuf : List UInt8
  tok : List Nat
  toktyp : List Toktyp
  deriving DecidableEq, Repr

/-- One round of the outer loop ends with the next one or with a result. -/
inductive Round
  | next (s : Lexan)
  | ret (r : Result)

namespace Lexan

variable (s : Lexan)

/-- `return SYSERR`. -/
def fail : Result :=
  { ret := none, tlen := none, ntok := s.ntok, tokbuf := s.tokbuf, tok := s.tok,
    toktyp := s.toktyp }

/-- `*tlen = tbindex; return ntok`. -/
def finish : Result :=
  { ret := some s.ntok, tlen := some s.tokbuf.length, ntok := s.ntok, tokbuf := s.tokbuf,
    tok := s.tok, toktyp := s.toktyp }

/-- The start and the type of a token. -/
def start (typ : Toktyp) : Lexan :=
  { s with tok := s.tok ++ [s.tokbuf.length], toktyp := s.toktyp ++ [typ] }

/-- Characters of a token. -/
def store (text : List UInt8) : Lexan := { s with tokbuf := s.tokbuf ++ text }

/-- The end of a token, with `p` behind it. -/
def count (p : List UInt8) : Lexan :=
  { s with tokbuf := s.tokbuf ++ [NULLCH], ntok := s.ntok + 1, p := p }

/-- A token with its text. -/
def token (typ : Toktyp) (text p : List UInt8) : Lexan := ((s.start typ).store text).count p

/-- A quoted string, with `p` behind the opening quote. -/
def quoted (quote : UInt8) (p : List UInt8) : Option Round :=
  let goes := fun ch => ch != quote && ch != SH_NEWLINE && ch != NULLCH
  let s := (s.start .SH_TOK_OTHER).store (p.takeWhile goes)
  match p.dropWhile goes with
  | [] => none
  | ch :: p => some (if ch ≠ quote then .ret s.fail else .next (s.count p))

/-- An ordinary token, with `p` behind its first character. -/
def other (ch : UInt8) (p : List UInt8) : Option Round :=
  let s := (s.start .SH_TOK_OTHER).store (ch :: p.takeWhile isPlain)
  match p.dropWhile isPlain with
  | [] => none
  | ch :: p => some (if isAppended ch then .ret s.fail else .next (s.count (ch :: p)))

/-- One round of the outer loop. -/
def round : Option Round :=
  match s.p with
  | [] => none
  | ch :: _ =>
    if isEol ch then some (.ret s.finish)
    else if s.ntok ≥ SHELL_MAXTOK then some (.ret s.fail)
    else match s.p.dropWhile isBlank with
      | [] => none
      | ch :: p =>
        if isEol ch then some (.ret s.finish)
        else match single? ch with
          | some typ => some (.next (s.token typ [ch] p))
          | none => if isQuote ch then s.quoted ch p else s.other ch p

/-- The outer loop. -/
def run : Nat → Lexan → Option Result
  | 0, _ => none
  | k + 1, s => s.round.bind fun
    | .next s => run k s
    | .ret r => some r

end Lexan

/-- `lexan`, with the memory from `line` on. -/
def lexan (line : List UInt8) : Option Result :=
  Lexan.run (line.length + 1) { p := line, ntok := 0, tokbuf := [], tok := [], toktyp := [] }

-- ---------------------------------------------------------------------------
-- Lines and lexemes
-- ---------------------------------------------------------------------------

/-- In the memory `p` the line `cs` stands in front of its NEWLINE or NULLCH. -/
structure Line (cs p : List UInt8) : Prop where
  ended : ∃ t rest, isEol t = true ∧ p = cs ++ t :: rest
  within : ∀ c ∈ cs, isEol c = false

/-- A token as it stands in a line, `raw`, in front of the characters `rest`: its type and
its text. -/
inductive Lexeme : Toktyp → List UInt8 → List UInt8 → List UInt8 → Prop
  | single {c typ rest} : single? c = some typ → Lexeme typ [c] [c] rest
  | quoted {q text rest} : isQuote q = true → q ∉ text →
      Lexeme .SH_TOK_OTHER text (q :: (text ++ [q])) rest
  | word {c text rest} : (∀ x ∈ c :: text, isPlain x = true) →
      (∀ d ∈ rest.head?, isBlank d = true ∨ d = SH_AMPER) →
      Lexeme .SH_TOK_OTHER (c :: text) (c :: text) rest

/-- What is no token: a quoted string that is not closed, and an ordinary token with another
one appended. -/
inductive Broken : List UInt8 → List UInt8 → Prop
  | unclosed {q text} : isQuote q = true → q ∉ text → Broken text (q :: text)
  | appended {c text d rest} : (∀ x ∈ c :: text, isPlain x = true) → isAppended d = true →
      Broken (c :: text) (c :: (text ++ d :: rest))

/-- What one round can do at the characters `cs` of the line. -/
inductive Outcome (cs : List UInt8) (s : Lexan) : Round → Prop
  | eol : cs.dropWhile isBlank = [] → (cs = [] ∨ s.ntok < SHELL_MAXTOK) →
      Outcome cs s (.ret s.finish)
  | full : cs ≠ [] → SHELL_MAXTOK ≤ s.ntok → Outcome cs s (.ret s.fail)
  | token {typ text raw rest p} : s.ntok < SHELL_MAXTOK → cs.dropWhile isBlank = raw ++ rest →
      Lexeme typ text raw rest → Line rest p → Outcome cs s (.next (s.token typ text p))
  | broken {text raw} : s.ntok < SHELL_MAXTOK → cs.dropWhile isBlank = raw → Broken text raw →
      Outcome cs s (.ret ((s.start .SH_TOK_OTHER).store text).fail)

section

variable {α : Type} {f : α → Bool} {t : α}

/-- The character at which a loop over a list ends stops it. -/
theorem stopped {l r : List α} {d : α} (h : l.dropWhile f = d :: r) : f d = false := by
  have hne : l.dropWhile f ≠ [] := by rw [h]; exact List.cons_ne_nil d r
  simpa [h] using List.head_dropWhile_not f hne

/-- A loop over a list ends in it, or at the next character that stops it. -/
theorem takeWhile_stop (h : f t = false) (l tail : List α) :
    (l ++ t :: tail).takeWhile f = l.takeWhile f := by
  induction l with
  | nil => simp [h]
  | cons x l ih => cases hx : f x <;> simp [hx, ih]

theorem dropWhile_stop (h : f t = false) (l tail : List α) :
    (l ++ t :: tail).dropWhile f = l.dropWhile f ++ t :: tail := by
  induction l with
  | nil => simp [h]
  | cons x l ih => cases hx : f x <;> simp [hx, ih]

end

theorem isEol_iff (t : UInt8) : isEol t = true ↔ t = SH_NEWLINE ∨ t = NULLCH := by
  simp [isEol]

/-- A character that ends the line is none of the others. -/
theorem isEol_others {t : UInt8} (h : isEol t = true) :
    isBlank t = false ∧ isPlain t = false ∧ isAppended t = false ∧ isQuote t = false := by
  rcases (isEol_iff t).mp h with rfl | rfl <;> decide

/-- A character of a line that is not plain is a blank, an ampersand or appended. -/
theorem not_isPlain {d : UInt8} (he : isEol d = false) (hp : isPlain d = false) :
    (isBlank d = true ∨ d = SH_AMPER) ∨ isAppended d = true := by
  simp only [isEol, isPlain, isBlank, isAppended, Bool.or_eq_false_iff, Bool.and_eq_false_iff,
    Bool.or_eq_true, beq_eq_false_iff_ne, bne_eq_false_iff_eq, beq_iff_eq] at he hp ⊢
  tauto

theorem not_isAppended {d : UInt8} (h : isBlank d = true ∨ d = SH_AMPER) :
    isAppended d = false := by
  simp only [isBlank, Bool.or_eq_true, beq_iff_eq] at h
  rcases h with (rfl | rfl) | rfl <;> decide

/-- A character that begins neither a token of one character nor a quoted string nor a
blank is plain. -/
theorem isPlain_of {d : UInt8} (he : isEol d = false) (hb : isBlank d = false)
    (h1 : single? d = none) (hq : isQuote d = false) : isPlain d = true := by
  rcases hp : isPlain d with _ | _
  · rcases not_isPlain he hp with (h | rfl) | h
    · rw [hb] at h
      cases h
    · exact absurd h1 (by decide)
    · simp only [isAppended, isQuote, Bool.or_eq_true, Bool.or_eq_false_iff, beq_iff_eq,
        beq_eq_false_iff_ne] at h hq
      rcases h with ((h | h) | rfl) | rfl
      · exact absurd h hq.1
      · exact absurd h hq.2
      · exact absurd h1 (by decide)
      · exact absurd h1 (by decide)
  · rfl

/-- A token takes at least one character of the line, and its text is a part of them. -/
theorem Lexeme.parts {typ : Toktyp} {text raw rest : List UInt8} (h : Lexeme typ text raw rest) :
    raw ≠ [] ∧ ∃ before after, raw = before ++ text ++ after := by
  cases h with
  | single h => exact ⟨List.cons_ne_nil _ _, [], [], rfl⟩
  | @quoted q text rest hq hnot =>
    exact ⟨List.cons_ne_nil _ _, [q], [q], rfl⟩
  | @word c text rest hp hr =>
    exact ⟨List.cons_ne_nil _ _, [], [], (List.append_nil _).symm⟩

theorem Broken.length_le {text raw : List UInt8} (h : Broken text raw) :
    text.length ≤ raw.length := by
  cases h with
  | unclosed _ _ => exact Nat.le_succ _
  | appended _ _ =>
    rw [List.length_cons, List.length_cons, List.length_append]
    omega

namespace Lexan

variable {cs : List UInt8} {s : Lexan}

/-- A quoted string is copied to its end, or to the end of the line. -/
theorem quoted_cases {q : UInt8} {ds p : List UInt8} (hq : isQuote q = true) (h : Line ds p)
    (hn : s.ntok < SHELL_MAXTOK) (hd : cs.dropWhile isBlank = q :: ds) :
    ∃ o, s.quoted q p = some o ∧ Outcome cs s o := by
  obtain ⟨⟨t, tail, ht, rfl⟩, hwithin⟩ := h
  obtain ⟨f, hf⟩ : ∃ f : UInt8 → Bool,
      f = fun ch => ch != q && ch != SH_NEWLINE && ch != NULLCH := ⟨_, rfl⟩
  have hgo : ∀ ch, ch ≠ q → isEol ch = false → f ch = true := by
    intro ch hne he
    simp only [isEol, Bool.or_eq_false_iff, beq_eq_false_iff_ne] at he
    simp [hf, hne, he.1, he.2]
  have hqstop : f q = false := by simp [hf]
  have htstop : f t = false := by
    rcases (isEol_iff t).mp ht with rfl | rfl <;> simp [hf]
  have htq : t ≠ q := by
    rintro rfl
    rw [(isEol_others ht).2.2.2] at hq
    cases hq
  unfold quoted
  rw [← hf]
  dsimp only
  by_cases hmem : q ∈ ds
  · -- the string is closed: the loop ends at the first such quote
    obtain ⟨text, rest, rfl, hnot⟩ := List.eq_append_cons_of_mem hmem
    have htext : ∀ x ∈ text, f x = true := fun x hx =>
      hgo x (fun hxq => hnot (hxq ▸ hx)) (hwithin x (List.mem_append_left _ hx))
    have hall : text.takeWhile f = text ∧ text.dropWhile f = [] :=
      ⟨List.takeWhile_eq_self_iff.mpr htext, List.dropWhile_eq_nil_iff.mpr htext⟩
    rw [List.append_assoc, List.cons_append, takeWhile_stop hqstop, dropWhile_stop hqstop, hall.1,
      hall.2, List.nil_append]
    refine ⟨_, rfl, ?_⟩
    rw [if_neg fun hne => hne rfl]
    refine .token hn ?_ (.quoted hq hnot) ⟨⟨t, tail, ht, rfl⟩, fun x hx => hwithin x ?_⟩
    · rw [hd, List.cons_append, List.append_assoc]
      rfl
    · exact List.mem_append_right _ (List.mem_cons_of_mem _ hx)
  · have htext : ∀ x ∈ ds, f x = true := fun x hx =>
      hgo x (fun hxq => hmem (hxq ▸ hx)) (hwithin x hx)
    rw [takeWhile_stop htstop, dropWhile_stop htstop, List.takeWhile_eq_self_iff.mpr htext,
      List.dropWhile_eq_nil_iff.mpr htext, List.nil_append]
    refine ⟨_, rfl, ?_⟩
    rw [if_pos htq]
    exact .broken hn hd (.unclosed hq hmem)

/-- An ordinary token goes on to the next character that is not plain. -/
theorem other_cases {c : UInt8} {ds p : List UInt8} (hc : isPlain c = true) (h : Line ds p)
    (hn : s.ntok < SHELL_MAXTOK) (hd : cs.dropWhile isBlank = c :: ds) :
    ∃ o, s.other c p = some o ∧ Outcome cs s o := by
  obtain ⟨⟨t, tail, ht, rfl⟩, hwithin⟩ := h
  obtain ⟨-, htplain, htapp, -⟩ := isEol_others ht
  have hplain : ∀ x ∈ c :: ds.takeWhile isPlain, isPlain x = true := by
    intro x hx
    rcases List.mem_cons.mp hx with rfl | hx
    · exact hc
    · exact List.mem_takeWhile_imp hx
  have hsplit : ds = ds.takeWhile isPlain ++ ds.dropWhile isPlain :=
    (List.takeWhile_append_dropWhile).symm
  unfold other
  rw [takeWhile_stop htplain, dropWhile_stop htplain]
  cases hrest : ds.dropWhile isPlain with
  | nil =>
    rw [hrest, List.append_nil] at hsplit
    refine ⟨_, rfl, ?_⟩
    rw [htapp, if_neg Bool.false_ne_true]
    have hall : cs.dropWhile isBlank = (c :: ds.takeWhile isPlain) ++ [] := by
      rw [hd, List.append_nil, ← hsplit]
    exact .token hn hall (.word hplain nofun) ⟨⟨t, tail, ht, rfl⟩, nofun⟩
  | cons d rest =>
    rw [hrest] at hsplit
    have hdmem : d ∈ ds := by
      rw [hsplit]
      exact List.mem_append_right _ List.mem_cons_self
    have hdplain : isPlain d = false := stopped hrest
    refine ⟨_, rfl, ?_⟩
    rcases hdapp : isAppended d with _ | _
    · rw [if_neg Bool.false_ne_true]
      have hdsep := (not_isPlain (hwithin d hdmem) hdplain).resolve_right
        (by rw [hdapp]; exact Bool.false_ne_true)
      have htoken : cs.dropWhile isBlank = (c :: ds.takeWhile isPlain) ++ d :: rest := by
        rw [hd, List.cons_append, ← hsplit]
      refine .token hn htoken (.word hplain ?_) ⟨⟨t, tail, ht, rfl⟩, fun x hx => hwithin x ?_⟩
      · intro x hx
        obtain rfl : d = x := by simpa using hx
        exact hdsep
      · rw [hsplit]
        exact List.mem_append_right _ hx
    · rw [if_pos rfl]
      have hraw : cs.dropWhile isBlank = c :: (ds.takeWhile isPlain ++ d :: rest) := by
        rw [hd, ← hsplit]
      exact .broken hn hraw (.appended hplain hdapp)

/-- **What one round can do.** -/
theorem round_cases (h : Line cs s.p) : ∃ o, s.round = some o ∧ Outcome cs s o := by
  obtain ⟨⟨t, tail, ht, hp⟩, hwithin⟩ := h
  obtain ⟨htblank, -, -, -⟩ := isEol_others ht
  unfold round
  rw [hp]
  cases cs with
  | nil =>
    refine ⟨_, if_pos ht, .eol rfl (.inl rfl)⟩
  | cons c cs =>
    have hc := hwithin c List.mem_cons_self
    rw [List.cons_append]
    simp only [hc, Bool.false_eq_true, if_false]
    by_cases hn : SHELL_MAXTOK ≤ s.ntok
    · exact ⟨_, if_pos hn, .full (List.cons_ne_nil _ _) hn⟩
    · have hn' : s.ntok < SHELL_MAXTOK := Nat.lt_of_not_le hn
      rw [if_neg hn, ← List.cons_append, dropWhile_stop htblank]
      cases hd : (c :: cs).dropWhile isBlank with
      | nil => exact ⟨_, if_pos ht, .eol hd (.inr hn')⟩
      | cons d ds =>
        have hsub : ∀ x ∈ d :: ds, isEol x = false := fun x hx =>
          hwithin x ((List.dropWhile_sublist isBlank).subset (by rw [hd]; exact hx))
        have hline : Line ds (ds ++ t :: tail) :=
          ⟨⟨t, tail, ht, rfl⟩, fun x hx => hsub x (List.mem_cons_of_mem d hx)⟩
        have hblank : isBlank d = false := stopped hd
        rw [List.cons_append]
        simp only [hsub d List.mem_cons_self, Bool.false_eq_true, if_false]
        cases hs : single? d with
        | some typ => exact ⟨_, rfl, .token hn' hd (.single hs) hline⟩
        | none =>
          rcases hq : isQuote d with _ | _
          · rw [if_neg Bool.false_ne_true]
            exact other_cases (isPlain_of (hsub d List.mem_cons_self) hblank hs hq) hline hn' hd
          · rw [if_pos rfl]
            exact quoted_cases hq hline hn' hd

-- ---------------------------------------------------------------------------
-- Runs
-- ---------------------------------------------------------------------------

/-- What every token preserves holds when the scanner returns; and it returns, after as
many rounds as the line has characters and one. -/
theorem run_induction {I : List UInt8 → Lexan → Prop} {Q : Result → Prop}
    (htoken : ∀ {cs s typ text raw rest p}, I cs s → s.ntok < SHELL_MAXTOK →
      cs.dropWhile isBlank = raw ++ rest → Lexeme typ text raw rest → I rest (s.token typ text p))
    (hret : ∀ {cs s r}, I cs s → Outcome cs s (.ret r) → Q r) {k : Nat} (hk : cs.length < k)
    (hline : Line cs s.p) (h : I cs s) : ∃ r, s.run k = some r ∧ Q r := by
  induction k generalizing cs s with
  | zero => exact absurd hk (Nat.not_lt_zero _)
  | succ k ih =>
    obtain ⟨o, ho, hcases⟩ := round_cases hline
    rw [run, ho]
    cases hcases with
    | eol h1 h2 => exact ⟨_, rfl, hret h (.eol h1 h2)⟩
    | full h1 h2 => exact ⟨_, rfl, hret h (.full h1 h2)⟩
    | broken h1 h2 h3 => exact ⟨_, rfl, hret h (.broken h1 h2 h3)⟩
    | @token typ text raw rest p hn hd hlex hrest =>
      have hlen : raw.length + rest.length ≤ cs.length := by
        rw [← List.length_append, ← hd]
        exact (List.dropWhile_sublist isBlank).length_le
      have hpos := List.length_pos_iff.mpr hlex.parts.1
      exact ih (by omega) hrest (htoken h hn hd hlex)

end Lexan

-- ---------------------------------------------------------------------------
-- The arrays
-- ---------------------------------------------------------------------------

/-- A token that was stored: its index in `tokbuf`, its place in the line and its text. -/
structure Stored where
  index : Nat
  place : Nat
  text : List UInt8

/-- The token is a string of `tokbuf`, of consecutive characters of the line. -/
structure Stored.In (line tokbuf : List UInt8) (x : Stored) : Prop where
  copied : x.text <+: line.drop x.place
  ended : x.text ++ [NULLCH] <+: tokbuf.drop x.index
  chars : NULLCH ∉ x.text

/-- One token stands before another, in the line and in `tokbuf`. -/
def Stored.Before (x y : Stored) : Prop :=
  x.place + x.text.length ≤ y.place ∧ x.index + x.text.length < y.index

/-- The tokens counted so far are stored in the order of the line, and `tokbuf` has no more
characters than the scanner has read and tokens it has counted. -/
structure Inside (line cs : List UInt8) (s : Lexan) : Prop where
  read : ∃ done, line = done ++ cs ∧ s.tokbuf.length ≤ done.length + s.ntok ∧
    ∃ l : List Stored, l.map (·.index) = s.tok ∧ (∀ x ∈ l, x.In line s.tokbuf) ∧
      (∀ x ∈ l, x.place + x.text.length ≤ done.length) ∧ l.Pairwise Stored.Before
  within : ∀ c ∈ cs, isEol c = false
  counted : s.tok.length = s.ntok ∧ s.toktyp.length = s.ntok ∧ s.ntok ≤ SHELL_MAXTOK

/-- What is stored stays when more is stored behind it. -/
theorem Stored.In.append {line tokbuf : List UInt8} {x : Stored} (h : x.In line tokbuf)
    (more : List UInt8) : x.In line (tokbuf ++ more) := by
  have hlt : x.index ≤ tokbuf.length := by
    by_contra hgt
    have hnil := h.ended
    rw [List.drop_eq_nil_of_le (by omega), List.prefix_nil] at hnil
    simp at hnil
  refine ⟨h.copied, ?_, h.chars⟩
  rw [List.drop_append_of_le_length hlt]
  exact h.ended.trans (List.prefix_append _ _)

/-- A stored token ends inside of `tokbuf`. -/
theorem Stored.In.end_le {line tokbuf : List UInt8} {x : Stored} (h : x.In line tokbuf) :
    x.index + x.text.length < tokbuf.length := by
  have hlen := h.ended.length_le
  rw [List.length_append, List.length_singleton, List.length_drop] at hlen
  omega

variable {line : List UInt8}

/-- A token that is stored and counted keeps the invariant. -/
theorem Inside.token {cs raw rest text p : List UInt8} {s : Lexan} {typ : Toktyp}
    (h : Inside line cs s) (hn : s.ntok < SHELL_MAXTOK)
    (hd : cs.dropWhile isBlank = raw ++ rest) (hlex : Lexeme typ text raw rest) :
    Inside line rest (s.token typ text p) := by
  obtain ⟨⟨done, hline, hlen, l, hindex, hin, hplaces, hsorted⟩, hwithin, htok, htyp, hle⟩ := h
  obtain ⟨-, before, after, hraw⟩ := hlex.parts
  obtain ⟨gap, hgap⟩ : ∃ gap, cs = gap ++ (raw ++ rest) :=
    ⟨cs.takeWhile isBlank, by rw [← hd, List.takeWhile_append_dropWhile]⟩
  have hsplit : line = (done ++ gap ++ before) ++ (text ++ (after ++ rest)) := by
    rw [hline, hgap, hraw]
    simp only [List.append_assoc]
  -- the new token
  obtain ⟨x, hx⟩ : ∃ x : Stored, x = ⟨s.tokbuf.length, (done ++ gap ++ before).length, text⟩ :=
    ⟨_, rfl⟩
  have hxin : x.In line (s.tokbuf ++ text ++ [NULLCH]) := by
    refine ⟨?_, ?_, fun hmem => ?_⟩
    · rw [hx, hsplit, List.drop_left]
      exact List.prefix_append _ _
    · rw [hx]
      show text ++ [NULLCH] <+: List.drop s.tokbuf.length (s.tokbuf ++ text ++ [NULLCH])
      rw [List.append_assoc s.tokbuf, List.drop_left]
    · have hcs : NULLCH ∈ cs := by
        rw [hx] at hmem
        rw [hgap, hraw]
        simp only [List.mem_append]
        exact .inr (.inl (.inl (.inr hmem)))
      exact absurd (hwithin _ hcs) (by decide)
  refine ⟨⟨done ++ gap ++ raw, ?_, ?_, l ++ [x], ?_, ?_, ?_, ?_⟩, ?_, ?_, ?_, ?_⟩
  · rw [hline, hgap]
    simp only [List.append_assoc]
  · have hrawlen : text.length ≤ raw.length := by
      rw [hraw]
      simp only [List.length_append]
      omega
    simp only [Lexan.token, Lexan.count, Lexan.store, Lexan.start, List.length_append,
      List.length_singleton]
    omega
  · rw [List.map_append, hindex, hx]
    rfl
  · intro y hy
    rcases List.mem_append.mp hy with hy | hy
    · have hyin := ((hin y hy).append text).append [NULLCH]
      exact hyin
    · rw [List.mem_singleton.mp hy]
      exact hxin
  · intro y hy
    rcases List.mem_append.mp hy with hy | hy
    · have hyplace := hplaces y hy
      simp only [List.length_append]
      omega
    · rw [List.mem_singleton.mp hy, hx, hraw]
      simp only [List.length_append]
      omega
  · refine List.pairwise_append.mpr ⟨hsorted, List.pairwise_singleton _ _, fun y hy z hz => ?_⟩
    rw [List.mem_singleton.mp hz, hx]
    refine ⟨?_, (hin y hy).end_le⟩
    have hyplace := hplaces y hy
    simp only [List.length_append]
    omega
  · intro c hc
    refine hwithin c ?_
    rw [hgap]
    exact List.mem_append_right _ (List.mem_append_right _ hc)
  · simp [Lexan.token, Lexan.count, Lexan.store, Lexan.start, htok]
  · simp [Lexan.token, Lexan.count, Lexan.store, Lexan.start, htyp]
  · exact hn

/-- What a scanned line has left in the arrays: there was room for it, and the tokens that
were counted are strings of `tokbuf`, taken from the line in its order. -/
structure Result.Inside (line : List UInt8) (r : Result) : Prop where
  tokbuf : r.tokbuf.length ≤ SHELL_BUFLEN + SHELL_MAXTOK
  tok : r.tok.length ≤ SHELL_MAXTOK
  toktyp : r.toktyp.length ≤ SHELL_MAXTOK
  ntok : ∀ n, r.ret = some n → n = r.ntok
  tokens : ∃ l : List Stored, l.length = r.ntok ∧ l.map (·.index) = r.tok.take r.ntok ∧
    (∀ x ∈ l, x.In line r.tokbuf) ∧ l.Pairwise Stored.Before

theorem Inside.result {cs : List UInt8} {s : Lexan} {r : Result} (hlen : line.length ≤ SHELL_BUFLEN)
    (h : Inside line cs s) (ho : Outcome cs s (.ret r)) : r.Inside line := by
  obtain ⟨⟨done, hline, hbuf, l, hindex, hin, -, hsorted⟩, -, htok, htyp, hle⟩ := h
  have hcs : done.length + cs.length ≤ SHELL_BUFLEN := by
    rw [hline, List.length_append] at hlen
    exact hlen
  have hl : l.length = s.ntok := by rw [← htok, ← hindex, List.length_map]
  have htake : ∀ more : List Nat, l.map (·.index) = (s.tok ++ more).take s.ntok := by
    intro more
    rw [hindex, ← htok, List.take_left]
  have hnone : l.map (·.index) = s.tok.take s.ntok := by
    rw [hindex, ← htok, List.take_length]
  cases ho with
  | eol _ _ =>
    exact ⟨by show s.tokbuf.length ≤ _; omega, by show s.tok.length ≤ _; omega,
      by show s.toktyp.length ≤ _; omega, fun n hn => (Option.some.inj hn).symm, l, hl, hnone, hin,
      hsorted⟩
  | full _ _ =>
    exact ⟨by show s.tokbuf.length ≤ _; omega, by show s.tok.length ≤ _; omega,
      by show s.toktyp.length ≤ _; omega, nofun, l, hl, hnone, hin, hsorted⟩
  | @broken text raw hn hd hbroken =>
    have hraw : raw.length ≤ cs.length := by
      rw [← hd]
      exact (List.dropWhile_sublist isBlank).length_le
    have htext := hbroken.length_le
    refine ⟨?_, ?_, ?_, nofun, l, hl, htake _, fun x hx => (hin x hx).append text, hsorted⟩
    · show (s.tokbuf ++ text).length ≤ _
      rw [List.length_append]
      omega
    · show (s.tok ++ [_]).length ≤ _
      rw [List.length_append, List.length_singleton]
      omega
    · show (s.toktyp ++ [_]).length ≤ _
      rw [List.length_append, List.length_singleton]
      omega

end Xinu.Shell
