import XinuCMips.Config.Actions

/-!
# The grammar of the configuration

The tokens of `config.l` and the automaton that `yacc` makes of the rules of `config.y`,
which has no nesting: its stack is never deeper than one rule, and one place at a time is
enough. The actions are done as the automaton goes.

* `yystep`, `yyparse` — the automaton;
* `Input`, `tokens`   — the inputs that the rules describe, and how they are written;
* `Input.run`         — the actions of an input, rule by rule;
* `yyparse_eq_some`   — **the automaton accepts exactly the inputs of the grammar** whose
  actions go through, and does their actions.
-/

namespace Xinu.Config

-- ---------------------------------------------------------------------------
-- Tokens
-- ---------------------------------------------------------------------------

/-- What `yylex` gives, with its text where an action looks at it. -/
inductive Token
  | DEFBRK | COLON | IS | ON
  | INTEGER (yytext : Name)
  | IDENT (yytext : Name)
  | key (k : Key)
  /-- any other character -/
  | other (c : Char)
  deriving DecidableEq

-- ---------------------------------------------------------------------------
-- The automaton
-- ---------------------------------------------------------------------------

/-- How far a rule has come. -/
inductive Place
  /-- `ftypes .`, with nothing that attributes could belong to -/
  | ftypes
  /-- `tname: id . COLON` -/
  | colon (symid : ℕ)
  /-- `ftype: tname . dev_list` -/
  | tname
  /-- `devheader: ON . id` -/
  | devheader
  /-- `devtypes .` -/
  | devtypes
  /-- `fspec: dname . IS id optional_on` -/
  | dname (nameid : ℕ)
  /-- `fspec: dname IS . id optional_on` -/
  | is (nameid : ℕ)
  /-- `fspec: dname IS id . optional_on` -/
  | optional_on (nameid typid : ℕ)
  /-- `optional_on: ON . id` -/
  | on (nameid typid : ℕ)
  /-- `attr_list .` of a type or of a device -/
  | attr_list (device : Bool)
  /-- `attr: k . number` or `attr: k . id` -/
  | attr (device : Bool) (k : Key)
  deriving DecidableEq

section

-- What `malloc` leaves in the nodes of types.
variable (behind : ℕ → Routine → Name)

/-- The tokens after the attributes of a type. -/
def afterType (s : State) : Token → Option (Place × State)
  | .DEFBRK => some (.devtypes, s)
  | .ON => some (.devheader, s)
  | .IDENT text => do
    let (i, s) ← s.lookup text
    return (.colon i, s)
  | _ => none

/-- `dname: id`, the token that starts a device. -/
def startDevice (s : State) : Token → Option (Place × State)
  | .IDENT text => do
    let (i, s) ← s.lookup text
    return (.dname (← s.ckdname i), s)
  | _ => none

/-- `attr_list: attr_list . attr` -/
def inAttrList (device : Bool) (s : State) : Token → Option (Place × State)
  | .key k => some (.attr device k, s)
  | t => if device then startDevice s t else afterType s t

/-- One token. -/
def yystep : Place × State → Token → Option (Place × State)
  | (.ftypes, s), .DEFBRK => some (.devtypes, s)
  | (.ftypes, s), .IDENT text => do
    let (i, s) ← s.lookup text
    return (.colon i, s)
  | (.colon i, s), .COLON => do
    let i ← s.cktname i
    return (.tname, { s with currtname := some i })
  | (.tname, s), .ON => some (.devheader, s)
  | (.devheader, s), .IDENT text => do
    let (i, s) ← s.lookup text
    return (.attr_list false, ← s.mktype behind i)
  | (.devtypes, s), t => startDevice s t
  | (.dname n, s), .IS => some (.is n, s)
  | (.is n, s), .IDENT text => do
    let (i, s) ← s.lookup text
    return (.optional_on n i, s)
  | (.optional_on n i, s), .ON => some (.on n i, s)
  | (.optional_on n i, s), t => do
    inAttrList true (← s.mkdev n i 0) t
  | (.on n i, s), .IDENT text => do
    let (d, s) ← s.lookup text
    return (.attr_list true, ← s.mkdev n i d)
  | (.attr_list device, s), t => inAttrList device s t
  | (.attr device (.routine r), s), .IDENT text => do
    let (i, s) ← s.lookup text
    return (.attr_list device, ← s.newattr (.routine r) i)
  | (.attr device .csr, s), .INTEGER text => do
    return (.attr_list device, ← s.newattr .csr (config_atoi text))
  | (.attr device .irq, s), .INTEGER text => do
    return (.attr_list device, ← s.newattr .irq (config_atoi text))
  | _, _ => none

/-- The end of the input: is the configuration complete? -/
def yyend : Place × State → Option State
  | (.devtypes, s) => some s
  | (.optional_on n i, s) => s.mkdev n i 0
  | (.attr_list true, s) => some s
  | _ => none

/-- The rest of the input, from some place on. -/
def yyrest (p : Place × State) (input : List Token) : Option State :=
  input.foldlM (yystep behind) p >>= yyend

def yyparse (input : List Token) : Option State :=
  yyrest behind (.ftypes, .start) input

/-- The program. -/
def main (input : List Token) : Option Tables :=
  yyparse behind input >>= State.tables

end

-- ---------------------------------------------------------------------------
-- The inputs that the rules describe
-- ---------------------------------------------------------------------------

/-- `attr` -/
inductive Attr
  | csr (number : Name)
  | irq (number : Name)
  | routine (r : Routine) (id : Name)
  deriving DecidableEq

/-- `devheader attr_list` -/
structure DevList where
  device : Name
  attrs : List Attr
  deriving DecidableEq

/-- `ftype: tname dev_list`, where there is at least one device. -/
structure Ftype where
  tname : Name
  first : DevList
  rest : List DevList
  deriving DecidableEq

/-- `descriptor: fspec attr_list` -/
structure Descriptor where
  dname : Name
  type : Name
  optional_on : Option Name
  attrs : List Attr
  deriving DecidableEq

/-- `configuration: devtypes devdescriptors` -/
structure Input where
  ftypes : List Ftype
  devices : List Descriptor
  deriving DecidableEq

def Attr.key : Attr → Key
  | csr _ => .csr
  | irq _ => .irq
  | routine r _ => .routine r

def Attr.value : Attr → Token
  | csr number => .INTEGER number
  | irq number => .INTEGER number
  | routine _ id => .IDENT id

def Attr.tokens (a : Attr) : List Token :=
  [.key a.key, a.value]

def DevList.tokens (d : DevList) : List Token :=
  .ON :: .IDENT d.device :: d.attrs.flatMap Attr.tokens

def Ftype.tokens (t : Ftype) : List Token :=
  .IDENT t.tname :: .COLON :: (t.first :: t.rest).flatMap DevList.tokens

def onTokens : Option Name → List Token
  | none => []
  | some d => [.ON, .IDENT d]

def Descriptor.tokens (d : Descriptor) : List Token :=
  .IDENT d.dname :: .IS :: .IDENT d.type :: (onTokens d.optional_on ++ d.attrs.flatMap Attr.tokens)

def Input.tokens (c : Input) : List Token :=
  c.ftypes.flatMap Ftype.tokens ++ .DEFBRK :: c.devices.flatMap Descriptor.tokens

-- ---------------------------------------------------------------------------
-- The actions of an input
-- ---------------------------------------------------------------------------

def Attr.run (s : State) : Attr → Option State
  | csr number => s.newattr .csr (config_atoi number)
  | irq number => s.newattr .irq (config_atoi number)
  | routine r id => do
    let (i, s) ← s.lookup id
    s.newattr (.routine r) i

def DevList.run (behind : ℕ → Routine → Name) (s : State) (d : DevList) : Option State := do
  let (i, s) ← s.lookup d.device
  d.attrs.foldlM Attr.run (← s.mktype behind i)

def Ftype.run (behind : ℕ → Routine → Name) (s : State) (t : Ftype) : Option State := do
  let (i, s) ← s.lookup t.tname
  let i ← s.cktname i
  (t.first :: t.rest).foldlM (DevList.run behind) { s with currtname := some i }

/-- The device that a descriptor is on, which is symbol 0 if it does not say. -/
def onRun (s : State) : Option Name → Option (ℕ × State)
  | none => some (0, s)
  | some d => s.lookup d

def Descriptor.run (s : State) (d : Descriptor) : Option State := do
  let (n, s) ← s.lookup d.dname
  let n ← s.ckdname n
  let (i, s) ← s.lookup d.type
  let (on, s) ← onRun s d.optional_on
  d.attrs.foldlM Attr.run (← s.mkdev n i on)

def Input.run (behind : ℕ → Routine → Name) (c : Input) : Option State := do
  let s ← c.ftypes.foldlM (Ftype.run behind) .start
  c.devices.foldlM Descriptor.run s

variable {behind : ℕ → Routine → Name} {p : Place × State} {s s' : State} {t : Token}
  {ts : List Token} {n i : ℕ} {b : Bool}

-- ---------------------------------------------------------------------------
-- Inputs of the grammar are accepted
-- ---------------------------------------------------------------------------

theorem yyrest_cons : yyrest behind p (t :: ts) = yystep behind p t >>= (yyrest behind · ts) := by
  simp only [yyrest, List.foldlM_cons, bind_assoc]

theorem yyrest_attrs (attrs : List Attr) :
    yyrest behind (.attr_list b, s) (attrs.flatMap Attr.tokens ++ ts) =
      attrs.foldlM Attr.run s >>= fun s => yyrest behind (.attr_list b, s) ts := by
  induction attrs generalizing s with
  | nil => rfl
  | cons a attrs ih =>
    have hone (rest : List Token) : yyrest behind (.attr_list b, s) (a.tokens ++ rest) =
        a.run s >>= fun s => yyrest behind (.attr_list b, s) rest := by
      cases a <;> simp [Attr.tokens, Attr.key, Attr.value, yyrest_cons, yystep, inAttrList,
        Attr.run, Option.bind_assoc]
    rw [List.flatMap_cons, List.append_assoc, hone, List.foldlM_cons, bind_assoc]
    exact congrArg _ (funext fun s => ih)

theorem yyrest_devheader (d : DevList) :
    yyrest behind (.devheader, s) (.IDENT d.device :: d.attrs.flatMap Attr.tokens ++ ts) =
      d.run behind s >>= fun s => yyrest behind (.attr_list false, s) ts := by
  simp [yyrest_cons, yystep, DevList.run, Option.bind_assoc, yyrest_attrs]

theorem yyrest_dev_list (ds : List DevList) :
    yyrest behind (.attr_list false, s) (ds.flatMap DevList.tokens ++ ts) =
      ds.foldlM (DevList.run behind) s >>= fun s => yyrest behind (.attr_list false, s) ts := by
  induction ds generalizing s with
  | nil => rfl
  | cons d ds ih =>
    have hone (rest : List Token) : yyrest behind (.attr_list false, s) (d.tokens ++ rest) =
        d.run behind s >>= fun s => yyrest behind (.attr_list false, s) rest := by
      rw [DevList.tokens, List.cons_append, yyrest_cons, ← yyrest_devheader]
      rfl
    rw [List.flatMap_cons, List.append_assoc, hone, List.foldlM_cons, bind_assoc]
    exact congrArg _ (funext fun s => ih)

/-- A place between declarations of types. -/
def AtFtype (p : Place) : Prop :=
  p = .ftypes ∨ p = .attr_list false

theorem yyrest_ftype {q : Place} (hq : AtFtype q) (f : Ftype) :
    yyrest behind (q, s) (f.tokens ++ ts) =
      f.run behind s >>= fun s => yyrest behind (.attr_list false, s) ts := by
  have hname : yystep behind (q, s) (.IDENT f.tname) = do
      let (i, s) ← s.lookup f.tname
      return (.colon i, s) := by
    rcases hq with rfl | rfl <;> rfl
  have hheader (s : State) (d : DevList) (rest : List Token) :
      yyrest behind (.tname, s) (d.tokens ++ rest) =
        d.run behind s >>= fun s => yyrest behind (.attr_list false, s) rest := by
    rw [DevList.tokens, List.cons_append, yyrest_cons, ← yyrest_devheader]
    rfl
  rw [Ftype.tokens, List.cons_append, yyrest_cons, hname]
  simp [Ftype.run, yyrest_cons, yystep, Option.bind_assoc, hheader, yyrest_dev_list]

theorem yyrest_ftypes {q : Place} (hq : AtFtype q) (fs : List Ftype) :
    yyrest behind (q, s) (fs.flatMap Ftype.tokens ++ .DEFBRK :: ts) =
      fs.foldlM (Ftype.run behind) s >>= fun s => yyrest behind (.devtypes, s) ts := by
  induction fs generalizing q s with
  | nil =>
    have hbrk : yystep behind (q, s) .DEFBRK = some (.devtypes, s) := by
      rcases hq with rfl | rfl <;> rfl
    rw [List.flatMap_nil, List.nil_append, yyrest_cons, hbrk]
    rfl
  | cons f fs ih =>
    rw [List.flatMap_cons, List.append_assoc, yyrest_ftype hq, List.foldlM_cons, bind_assoc]
    exact congrArg _ (funext fun s => ih (Or.inr rfl))

/-- A place between declarations of devices. -/
def AtDevice (p : Place) : Prop :=
  p = .devtypes ∨ p = .attr_list true

/-- Where `on` is left out, `mkdev` waits for the token behind. -/
theorem yyrest_optional_on (hon : ts.head? ≠ some .ON) :
    yyrest behind (.optional_on n i, s) ts =
      s.mkdev n i 0 >>= fun s => yyrest behind (.attr_list true, s) ts := by
  cases ts with
  | nil => simp [yyrest, yyend]
  | cons t ts =>
    simp only [yyrest_cons]
    cases t with
    | ON => exact absurd rfl hon
    | _ => simp [yystep, Option.bind_assoc]

theorem yyrest_descriptor {q : Place} (hq : AtDevice q) (d : Descriptor)
    (hon : ts.head? ≠ some .ON) :
    yyrest behind (q, s) (d.tokens ++ ts) =
      d.run s >>= fun s => yyrest behind (.attr_list true, s) ts := by
  have hname : yystep behind (q, s) (.IDENT d.dname) = do
      let (i, s) ← s.lookup d.dname
      return (.dname (← s.ckdname i), s) := by
    rcases hq with rfl | rfl <;> rfl
  have hoptional (s : State) (n i : ℕ) :
      yyrest behind (.optional_on n i, s)
        (onTokens d.optional_on ++ (d.attrs.flatMap Attr.tokens ++ ts)) =
      onRun s d.optional_on >>= fun r => r.2.mkdev n i r.1 >>= fun s =>
        yyrest behind (.attr_list true, s) (d.attrs.flatMap Attr.tokens ++ ts) := by
    cases d.optional_on with
    | some x => simp [onTokens, onRun, yyrest_cons, yystep, Option.bind_assoc]
    | none =>
      refine yyrest_optional_on ?_
      cases d.attrs with
      | nil => exact hon
      | cons a attrs => simp [onTokens, Attr.tokens]
  rw [Descriptor.tokens, List.cons_append, yyrest_cons, hname]
  simp [Descriptor.run, yyrest_cons, yystep, Option.bind_assoc, hoptional, yyrest_attrs]

theorem yyrest_descriptors {q : Place} (hq : AtDevice q) (ds : List Descriptor) :
    yyrest behind (q, s) (ds.flatMap Descriptor.tokens) = ds.foldlM Descriptor.run s := by
  induction ds generalizing q s with
  | nil => rcases hq with rfl | rfl <;> rfl
  | cons d ds ih =>
    have hon : (ds.flatMap Descriptor.tokens).head? ≠ some .ON := by
      cases ds <;> simp [Descriptor.tokens]
    rw [List.flatMap_cons, yyrest_descriptor hq d hon, List.foldlM_cons]
    exact congrArg _ (funext fun s => ih (Or.inr rfl))

theorem yyparse_tokens (c : Input) : yyparse behind c.tokens = c.run behind := by
  rw [yyparse, Input.tokens, yyrest_ftypes (Or.inl rfl)]
  exact congrArg _ (funext fun s => yyrest_descriptors (Or.inl rfl) c.devices)

-- ---------------------------------------------------------------------------
-- Nothing else is accepted
-- ---------------------------------------------------------------------------

/-- What may follow in a type. -/
def typesRest (attrs : List Attr) (rest : List DevList) (c : Input) : List Token :=
  attrs.flatMap Attr.tokens ++ rest.flatMap DevList.tokens ++ c.tokens

/-- What may follow in a device. -/
def devicesRest (attrs : List Attr) (ds : List Descriptor) : List Token :=
  attrs.flatMap Attr.tokens ++ ds.flatMap Descriptor.tokens

/-- What may follow, by its place. -/
def Continues : Place → List Token → Prop
  | .ftypes, ts => ∃ c : Input, ts = c.tokens
  | .colon _, ts => ∃ d rest c, ts = .COLON :: (DevList.tokens d ++ typesRest [] rest c)
  | .tname, ts => ∃ d rest c, ts = DevList.tokens d ++ typesRest [] rest c
  | .devheader, ts => ∃ name attrs rest c, ts = .IDENT name :: typesRest attrs rest c
  | .attr_list false, ts => ∃ attrs rest c, ts = typesRest attrs rest c
  | .attr false k, ts => ∃ a attrs rest c,
      Attr.key a = k ∧ ts = a.value :: typesRest attrs rest c
  | .devtypes, ts => ∃ ds, ts = devicesRest [] ds
  | .dname _, ts => ∃ type on attrs ds,
      ts = .IS :: .IDENT type :: (onTokens on ++ devicesRest attrs ds)
  | .is _, ts => ∃ type on attrs ds, ts = .IDENT type :: (onTokens on ++ devicesRest attrs ds)
  | .optional_on _ _, ts => ∃ on attrs ds, ts = onTokens on ++ devicesRest attrs ds
  | .on _ _, ts => ∃ name attrs ds, ts = .IDENT name :: devicesRest attrs ds
  | .attr_list true, ts => ∃ attrs ds, ts = devicesRest attrs ds
  | .attr true k, ts => ∃ a attrs ds, Attr.key a = k ∧ ts = a.value :: devicesRest attrs ds

theorem continues_of_startDevice {q : Place × State} (h : startDevice s t = some q)
    (hq : Continues q.1 ts) : ∃ ds, t :: ts = devicesRest [] ds := by
  cases t with
  | IDENT text =>
    obtain ⟨⟨i, s'⟩, -, h⟩ := Option.bind_eq_some_iff.mp h
    obtain ⟨j, -, h⟩ := Option.bind_eq_some_iff.mp h
    obtain rfl := Option.some.inj h
    obtain ⟨type, on, attrs, ds, rfl⟩ := hq
    exact ⟨⟨text, type, on, attrs⟩ :: ds, by simp [devicesRest, Descriptor.tokens]⟩
  | _ => cases h

theorem continues_of_afterType {q : Place × State} (h : afterType s t = some q)
    (hq : Continues q.1 ts) : ∃ rest c, t :: ts = typesRest [] rest c := by
  cases t with
  | DEFBRK =>
    obtain rfl := Option.some.inj h
    obtain ⟨ds, rfl⟩ := hq
    exact ⟨[], ⟨[], ds⟩, rfl⟩
  | ON =>
    obtain rfl := Option.some.inj h
    obtain ⟨name, attrs, rest, c, rfl⟩ := hq
    exact ⟨⟨name, attrs⟩ :: rest, c, by simp [typesRest, DevList.tokens]⟩
  | IDENT text =>
    obtain ⟨⟨i, s'⟩, -, h⟩ := Option.bind_eq_some_iff.mp h
    obtain rfl := Option.some.inj h
    obtain ⟨d, rest, c, rfl⟩ := hq
    exact ⟨[], ⟨⟨text, d, rest⟩ :: c.ftypes, c.devices⟩, by
      simp [typesRest, Input.tokens, Ftype.tokens]⟩
  | _ => cases h

theorem inAttrList_of_ne (hkey : ∀ k, t ≠ .key k) :
    inAttrList b s t = if b then startDevice s t else afterType s t := by
  cases t with
  | key k => exact absurd rfl (hkey k)
  | _ => rfl

theorem continues_of_inAttrList {q : Place × State} (h : inAttrList b s t = some q)
    (hq : Continues q.1 ts) : Continues (.attr_list b) (t :: ts) := by
  by_cases hkey : ∃ k, t = .key k
  · obtain ⟨k, rfl⟩ := hkey
    obtain rfl := Option.some.inj h
    cases b with
    | false =>
      obtain ⟨a, attrs, rest, c, rfl, rfl⟩ := hq
      exact ⟨a :: attrs, rest, c, by simp [typesRest, Attr.tokens]⟩
    | true =>
      obtain ⟨a, attrs, ds, rfl, rfl⟩ := hq
      exact ⟨a :: attrs, ds, by simp [devicesRest, Attr.tokens]⟩
  · rw [inAttrList_of_ne (not_exists.mp hkey)] at h
    cases b with
    | false =>
      obtain ⟨rest, c, hts⟩ := continues_of_afterType h hq
      exact ⟨[], rest, c, hts⟩
    | true =>
      obtain ⟨ds, hts⟩ := continues_of_startDevice h hq
      exact ⟨[], ds, hts⟩

/-- An attribute and what follows it. -/
theorem continues_of_attr {a : Attr} (hq : Continues (.attr_list b) ts) :
    Continues (.attr b a.key) (a.value :: ts) := by
  cases b with
  | false =>
    obtain ⟨attrs, rest, c, rfl⟩ := hq
    exact ⟨a, attrs, rest, c, rfl, rfl⟩
  | true =>
    obtain ⟨attrs, ds, rfl⟩ := hq
    exact ⟨a, attrs, ds, rfl, rfl⟩

/-- **A token is taken only where the grammar has one.** -/
theorem continues_step {q : Place × State} (h : yystep behind p t = some q)
    (hq : Continues q.1 ts) : Continues p.1 (t :: ts) := by
  obtain ⟨place, s⟩ := p
  cases place with
  | ftypes =>
    cases t with
    | DEFBRK =>
      obtain rfl := Option.some.inj h
      obtain ⟨ds, rfl⟩ := hq
      exact ⟨⟨[], ds⟩, rfl⟩
    | IDENT text =>
      obtain ⟨⟨i, s'⟩, -, h⟩ := Option.bind_eq_some_iff.mp h
      obtain rfl := Option.some.inj h
      obtain ⟨d, rest, c, rfl⟩ := hq
      exact ⟨⟨⟨text, d, rest⟩ :: c.ftypes, c.devices⟩, by
        simp [typesRest, Input.tokens, Ftype.tokens]⟩
    | _ => cases h
  | colon i =>
    cases t with
    | COLON =>
      obtain ⟨j, -, h⟩ := Option.bind_eq_some_iff.mp h
      obtain rfl := Option.some.inj h
      obtain ⟨d, rest, c, rfl⟩ := hq
      exact ⟨d, rest, c, rfl⟩
    | _ => cases h
  | tname =>
    cases t with
    | ON =>
      obtain rfl := Option.some.inj h
      obtain ⟨name, attrs, rest, c, rfl⟩ := hq
      exact ⟨⟨name, attrs⟩, rest, c, by simp [typesRest, DevList.tokens]⟩
    | _ => cases h
  | devheader =>
    cases t with
    | IDENT text =>
      obtain ⟨⟨i, s'⟩, -, h⟩ := Option.bind_eq_some_iff.mp h
      obtain ⟨s'', -, h⟩ := Option.bind_eq_some_iff.mp h
      obtain rfl := Option.some.inj h
      obtain ⟨attrs, rest, c, rfl⟩ := hq
      exact ⟨text, attrs, rest, c, rfl⟩
    | _ => cases h
  | devtypes => exact continues_of_startDevice h hq
  | dname n =>
    cases t with
    | IS =>
      obtain rfl := Option.some.inj h
      obtain ⟨type, on, attrs, ds, rfl⟩ := hq
      exact ⟨type, on, attrs, ds, rfl⟩
    | _ => cases h
  | is n =>
    cases t with
    | IDENT text =>
      obtain ⟨⟨i, s'⟩, -, h⟩ := Option.bind_eq_some_iff.mp h
      obtain rfl := Option.some.inj h
      obtain ⟨on, attrs, ds, rfl⟩ := hq
      exact ⟨text, on, attrs, ds, rfl⟩
    | _ => cases h
  | optional_on n i =>
    by_cases hon : t = .ON
    · subst hon
      obtain rfl := Option.some.inj h
      obtain ⟨name, attrs, ds, rfl⟩ := hq
      exact ⟨some name, attrs, ds, rfl⟩
    · have hstep : yystep behind (.optional_on n i, s) t =
          (s.mkdev n i 0 >>= fun s => inAttrList true s t) := by
        cases t <;> first | rfl | exact absurd rfl hon
      obtain ⟨s', -, h⟩ := Option.bind_eq_some_iff.mp (hstep.symm.trans h)
      obtain ⟨attrs, ds, hts⟩ := continues_of_inAttrList h hq
      exact ⟨none, attrs, ds, hts⟩
  | on n i =>
    cases t with
    | IDENT text =>
      obtain ⟨⟨j, s'⟩, -, h⟩ := Option.bind_eq_some_iff.mp h
      obtain ⟨s'', -, h⟩ := Option.bind_eq_some_iff.mp h
      obtain rfl := Option.some.inj h
      obtain ⟨attrs, ds, rfl⟩ := hq
      exact ⟨text, attrs, ds, rfl⟩
    | _ => cases h
  | attr_list b => exact continues_of_inAttrList h hq
  | attr b k =>
    cases k with
    | csr =>
      cases t with
      | INTEGER text =>
        obtain ⟨s', -, h⟩ := Option.bind_eq_some_iff.mp h
        obtain rfl := Option.some.inj h
        exact continues_of_attr (a := .csr text) hq
      | _ => cases h
    | irq =>
      cases t with
      | INTEGER text =>
        obtain ⟨s', -, h⟩ := Option.bind_eq_some_iff.mp h
        obtain rfl := Option.some.inj h
        exact continues_of_attr (a := .irq text) hq
      | _ => cases h
    | routine r =>
      cases t with
      | IDENT text =>
        obtain ⟨⟨i, s'⟩, -, h⟩ := Option.bind_eq_some_iff.mp h
        obtain ⟨s'', -, h⟩ := Option.bind_eq_some_iff.mp h
        obtain rfl := Option.some.inj h
        exact continues_of_attr (a := .routine r text) hq
      | _ => cases h

theorem continues_of_yyrest (h : yyrest behind p ts = some s') : Continues p.1 ts := by
  induction ts generalizing p with
  | nil =>
    obtain ⟨place, s⟩ := p
    have hend : yyend (place, s) = some s' := h
    match place with
    | .devtypes => exact ⟨[], rfl⟩
    | .optional_on n i => exact ⟨none, [], [], rfl⟩
    | .attr_list true => exact ⟨[], [], rfl⟩
    | .ftypes | .colon _ | .tname | .devheader | .dname _ | .is _ | .on _ _
    | .attr_list false | .attr _ _ => cases hend
  | cons t ts ih =>
    rw [yyrest_cons] at h
    obtain ⟨q, hstep, hrest⟩ := Option.bind_eq_some_iff.mp h
    exact continues_step hstep (ih hrest)

/-- **The automaton accepts exactly the inputs of the grammar** whose actions go through, and
what it leaves is what their actions leave. -/
theorem yyparse_eq_some : yyparse behind ts = some s' ↔
    ∃ c : Input, ts = c.tokens ∧ c.run behind = some s' := by
  constructor
  · intro h
    obtain ⟨c, rfl⟩ := continues_of_yyrest h
    exact ⟨c, rfl, (yyparse_tokens c).symm.trans h⟩
  · rintro ⟨c, rfl, h⟩
    exact (yyparse_tokens c).trans h

end Xinu.Config
