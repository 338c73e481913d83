import XinuCMips.Config.Grammar
import XinuCMips.Lib.Interning
import Mathlib.Data.List.Induction

/-!
# What a configuration means

A type on a device is a node with attributes, and a device has those of its node that it does
not set itself. Numbers of symbols, pointers and the lists that the actions build do not
matter here: a configuration is read as a whole.

* `Input.nodes`, `devOf`, `tablesOf` — the meaning, in names;
* `lookup_conc`, `newattr_conc`, …   — what each action does to it;
* `ftypes_run`, `descriptors_run`    — when the actions of the declarations go through, and
  where they end.
-/

namespace Xinu.Config

open Interning (internAll number number_append number_inj)

-- ---------------------------------------------------------------------------
-- Attributes
-- ---------------------------------------------------------------------------

structure Settings where
  csr : ℤ
  irq : ℤ
  routine : Routine → Name

/-- What a type has that says nothing. -/
def defaults (behind : Routine → Name) : Settings :=
  { csr := 0, irq := 0, routine := fun r => ioerr ++ behind r }

def Attr.csr? : Attr → Option ℤ
  | csr number => some (config_atoi number)
  | _ => none

def Attr.irq? : Attr → Option ℤ
  | irq number => some (config_atoi number)
  | _ => none

def Attr.routine? (r : Routine) : Attr → Option Name
  | routine r' id => if r = r' then some (truncated id) else none
  | _ => none

/-- The last attribute of each kind counts, and where there is none, what there was. -/
def Settings.over (base : Settings) (attrs : List Attr) : Settings where
  csr := (attrs.filterMap Attr.csr?).getLastD base.csr
  irq := (attrs.filterMap Attr.irq?).getLastD base.irq
  routine r := (attrs.filterMap (Attr.routine? r)).getLastD (base.routine r)

-- ---------------------------------------------------------------------------
-- Types and devices
-- ---------------------------------------------------------------------------

/-- A type on a device. -/
structure Node where
  type : Name
  device : Name
  settings : Settings

structure Dev extends Node where
  name : Name

def Attr.names : Attr → List Name
  | csr _ => []
  | irq _ => []
  | routine _ id => [truncated id]

def DevList.names (d : DevList) : List Name :=
  truncated d.device :: d.attrs.flatMap Attr.names

def Ftype.devLists (f : Ftype) : List DevList :=
  f.first :: f.rest

def Ftype.names (f : Ftype) : List Name :=
  truncated f.tname :: f.devLists.flatMap DevList.names

def Descriptor.names (d : Descriptor) : List Name :=
  truncated d.dname :: truncated d.type :: (d.optional_on.map truncated).toList ++
    d.attrs.flatMap Attr.names

/-- The names of a configuration, as they come. -/
def Input.names (c : Input) : List Name :=
  c.ftypes.flatMap Ftype.names ++ c.devices.flatMap Descriptor.names

/-- A type with each of its devices. -/
def Ftype.declared (f : Ftype) : List (Name × DevList) :=
  f.devLists.map (f.tname, ·)

/-- Declaration number `n` as a node. -/
def nodeOf (behind : ℕ → Routine → Name) (n : ℕ) (t : Name × DevList) : Node :=
  ⟨truncated t.1, truncated t.2.device, (defaults (behind n)).over t.2.attrs⟩

def Input.nodes (behind : ℕ → Routine → Name) (c : Input) : List Node :=
  (c.ftypes.flatMap Ftype.declared).mapIdx (nodeOf behind)

/-- The device of a descriptor. One that says none is on what the first name of the
configuration names, which is a type. -/
def deviceOf (first : Name) (d : Descriptor) : Name :=
  (d.optional_on.map truncated).getD first

def devOf (nodes : List Node) (first : Name) (d : Descriptor) : Option Dev :=
  (nodes.find? fun n => n.type = truncated d.type ∧ n.device = deviceOf first d).map fun n =>
    ⟨⟨n.type, n.device, n.settings.over d.attrs⟩, truncated d.dname⟩

/-- The tables for devices, in the order of the file: numbers from 0, and from 0 for each
type. -/
def tablesOf (names : List Name) (devs : List Dev) : Tables where
  names := devs.mapIdx fun i d => ⟨d.name, i, d.type⟩
  counts := ((internAll names).map fun t => (t, devs.countP (·.type = t))).filter (0 < ·.2)
  NDEVS := if 0 < devs.length then some devs.length else none
  devtab := devs.mapIdx fun i d =>
    ⟨i, (devs.take i).countP (·.type = d.type), d.name, d.settings.routine, d.settings.csr,
      d.settings.irq⟩

/-- There is room for the names of a list. -/
def Fits (l : List Name) : Prop := (internAll l).length ≤ maxSymbols

instance (l : List Name) : Decidable (Fits l) := Nat.decLe _ _

theorem Fits.left {l l' : List Name} (h : Fits (l ++ l')) : Fits l :=
  Nat.le_trans (List.IsPrefix.length_le Interning.prefix_internAll) h

/-- Every name that is given is given once, and there is room for all names. -/
structure Input.WellFormed (c : Input) : Prop where
  ftypes : (c.ftypes.map fun f => truncated f.tname).Nodup
  devLists : ∀ f ∈ c.ftypes, (f.devLists.map fun d => truncated d.device).Nodup
  devices : (c.devices.map fun d => truncated d.dname).Nodup
  room : Fits c.names

instance (c : Input) : Decidable c.WellFormed :=
  decidable_of_iff
    ((c.ftypes.map fun f => truncated f.tname).Nodup ∧
      (∀ f ∈ c.ftypes, (f.devLists.map fun d => truncated d.device).Nodup) ∧
      (c.devices.map fun d => truncated d.dname).Nodup ∧
      Fits c.names)
    ⟨fun h => ⟨h.1, h.2.1, h.2.2.1, h.2.2.2⟩, fun h => ⟨h.1, h.2, h.3, h.4⟩⟩

/-- **The meaning of a configuration**, if it has one. -/
def Input.meaning (behind : ℕ → Routine → Name) (c : Input) : Option Tables :=
  if c.WellFormed then
    (c.devices.mapM (devOf (c.nodes behind) (c.names.headD []))).map (tablesOf c.names)
  else none

-- ---------------------------------------------------------------------------
-- The state of the program in names
-- ---------------------------------------------------------------------------

/-- How far the actions have come: the names looked up, the type whose devices are listed,
and the declarations. -/
structure Progress where
  seen : List Name
  current : Option Name
  nodes : List Node
  devs : List Dev

variable {p : Progress} {x t d : Name} {behind : ℕ → Routine → Name}

def Node.ent (num : Name → ℕ) (n : Node) : DevEnt :=
  { name := none, tname := num n.type, tnum := num n.type, device := num n.device,
    csr := n.settings.csr, irq := n.settings.irq, routine := n.settings.routine, minor := 0 }

def Dev.ent (num : Name → ℕ) (d : Dev) : DevEnt :=
  { d.toNode.ent num with name := some (num d.name) }

/-- The variables of the program. -/
def Progress.conc (p : Progress) : State where
  symtab := (internAll p.seen).map (⟨·, 0⟩)
  currtname := p.current.map (number p.seen)
  ftypes := p.nodes.map (Node.ent (number p.seen))
  devs := p.devs.map (Dev.ent (number p.seen))
  ndevs := p.devs.length

/-- The names of the declarations have been looked up, and all names are short and fit. -/
structure Progress.Sound (p : Progress) : Prop where
  nodes : ∀ n ∈ p.nodes, n.type ∈ p.seen ∧ n.device ∈ p.seen
  devs : ∀ d ∈ p.devs, d.name ∈ p.seen ∧ d.type ∈ p.seen ∧ d.device ∈ p.seen
  current : ∀ t ∈ p.current, t ∈ p.seen
  short : ∀ x ∈ p.seen, x.length < CONFMAXNM
  fits : Fits p.seen

def Progress.see (p : Progress) (l : List Name) : Progress :=
  { p with seen := p.seen ++ l }

theorem ent_see {n : Node} (h : n.type ∈ p.seen ∧ n.device ∈ p.seen) (l : List Name) :
    n.ent (number (p.seen ++ l)) = n.ent (number p.seen) := by
  unfold Node.ent
  rw [number_append h.1, number_append h.2]

theorem dev_ent_see {d : Dev} (h : d.name ∈ p.seen ∧ d.type ∈ p.seen ∧ d.device ∈ p.seen)
    (l : List Name) : d.ent (number (p.seen ++ l)) = d.ent (number p.seen) := by
  unfold Dev.ent
  rw [number_append h.1, ent_see h.2]

/-- A name that is looked up changes nothing but the symbols. -/
theorem conc_see (hp : p.Sound) (l : List Name) :
    (p.see l).conc = { p.conc with symtab := (internAll (p.seen ++ l)).map (⟨·, 0⟩) } := by
  have hnodes : p.nodes.map (Node.ent (number (p.seen ++ l))) =
      p.nodes.map (Node.ent (number p.seen)) :=
    List.map_congr_left fun n hn => ent_see (hp.nodes n hn) l
  have hdevs : p.devs.map (Dev.ent (number (p.seen ++ l))) =
      p.devs.map (Dev.ent (number p.seen)) :=
    List.map_congr_left fun d hd => dev_ent_see (hp.devs d hd) l
  have hcurrent : p.current.map (number (p.seen ++ l)) = p.current.map (number p.seen) :=
    Option.map_congr fun t ht => number_append (hp.current t ht)
  unfold Progress.conc
  rw [← hnodes, ← hdevs, ← hcurrent]
  rfl

theorem Progress.Sound.see {l : List Name} (hp : p.Sound) (hl : ∀ x ∈ l, x.length < CONFMAXNM)
    (hfits : Fits (p.seen ++ l)) : (p.see l).Sound where
  nodes n hn := (hp.nodes n hn).imp (List.mem_append_left l) (List.mem_append_left l)
  devs d hd := (hp.devs d hd).imp (List.mem_append_left l)
    (And.imp (List.mem_append_left l) (List.mem_append_left l))
  current t ht := List.mem_append_left l (hp.current t ht)
  short x hx := (List.mem_append.mp hx).elim (hp.short x) (hl x)
  fits := hfits

-- ---------------------------------------------------------------------------
-- The actions in names
-- ---------------------------------------------------------------------------

theorem length_truncated (str : Name) : (truncated str).length < CONFMAXNM :=
  Nat.lt_succ_of_le (List.length_take_le _ _)

theorem Progress.Sound.seeOne (hp : p.Sound) {str : Name}
    (hfits : Fits (p.seen ++ [truncated str])) : (p.see [truncated str]).Sound := by
  refine hp.see (fun x hx => ?_) hfits
  obtain rfl := List.mem_singleton.mp hx
  exact length_truncated _

theorem lookup_conc (hp : p.Sound) (str : Name) : p.conc.lookup str =
    if Fits (p.seen ++ [truncated str]) then
      some (number (p.seen ++ [truncated str]) (truncated str), (p.see [truncated str]).conc)
    else none := by
  have hfind : p.conc.symtab.findIdx? (fun e => decide (e.name = truncated str)) =
      (internAll p.seen).findIdx? (fun b => decide (b = truncated str)) := by
    rw [Progress.conc, List.findIdx?_map]
    rfl
  unfold State.lookup
  rw [hfind]
  by_cases hmem : truncated str ∈ p.seen
  · have htab := Interning.internAll_of_mem hmem
    have hsee : (p.see [truncated str]).conc = p.conc := by
      rw [conc_see hp, htab]
      rfl
    have hroom : Fits (p.seen ++ [truncated str]) := by
      unfold Fits
      rw [htab]
      exact hp.fits
    rw [Interning.findIdx?_of_mem hmem, if_pos hroom, hsee, number_append hmem]
  · have htab := Interning.internAll_of_notMem hmem
    have hlength : p.conc.symtab.length = (internAll p.seen).length := List.length_map _
    have hnum : number (p.seen ++ [truncated str]) (truncated str) = p.conc.symtab.length :=
      (Interning.number_of_notMem hmem).trans hlength.symm
    have hroom : Fits (p.seen ++ [truncated str]) ↔ p.conc.symtab.length < maxSymbols := by
      unfold Fits
      rw [htab, List.length_append, hlength]
      exact Nat.succ_le_iff
    rw [Interning.findIdx?_of_notMem hmem, hnum, conc_see hp, htab, List.map_append]
    exact (if_congr hroom rfl rfl).symm

theorem cktname_conc (ht : t ∈ p.seen) : p.conc.cktname (number p.seen t) =
    if ∃ n ∈ p.nodes, n.type = t then none else some (number p.seen t) := by
  have hany : p.conc.ftypes.any (fun e => decide (e.tname = number p.seen t)) ↔
      ∃ n ∈ p.nodes, n.type = t := by
    simp only [Progress.conc, List.any_map, List.any_eq_true, Function.comp_apply, Node.ent,
      decide_eq_true_eq, eq_comm (b := number p.seen t), number_inj ht, eq_comm (a := t)]
  unfold State.cktname
  simp only [hany]

/-- The nodes of types, with one more. -/
def Progress.addNode (p : Progress) (n : Node) : Progress :=
  { p with nodes := p.nodes ++ [n] }

theorem mktype_conc (hp : p.Sound) (ht : p.current = some t) (hd : d ∈ p.seen) :
    p.conc.mktype behind (number p.seen d) =
      if ∃ n ∈ p.nodes, n.type = t ∧ n.device = d then none
      else some (p.addNode ⟨t, d, defaults (behind p.nodes.length)⟩).conc := by
  have htype : t ∈ p.seen := hp.current t (by rw [ht]; rfl)
  have hany : p.conc.ftypes.any (fun e =>
      decide (e.tname = number p.seen t ∧ e.device = number p.seen d)) ↔
        ∃ n ∈ p.nodes, n.type = t ∧ n.device = d := by
    simp only [Progress.conc, List.any_map, List.any_eq_true, Function.comp_apply, Node.ent,
      decide_eq_true_eq, eq_comm (b := number p.seen t), eq_comm (b := number p.seen d),
      number_inj htype, number_inj hd, eq_comm (a := t), eq_comm (a := d)]
  have hcurrent : p.conc.currtname = some (number p.seen t) := by rw [Progress.conc, ht]; rfl
  unfold State.mktype
  rw [hcurrent]
  simp only [Option.bind_eq_bind, Option.bind_some, hany]
  refine if_congr Iff.rfl rfl (congrArg some ?_)
  simp [Progress.conc, Progress.addNode, Node.ent, initattr, defaults, ht]

theorem ckdname_conc (hx : x ∈ p.seen) : p.conc.ckdname (number p.seen x) =
    if ∃ d ∈ p.devs, d.name = x then none else some (number p.seen x) := by
  have hany : p.conc.devs.any (fun e => decide (e.name = some (number p.seen x))) ↔
      ∃ d ∈ p.devs, d.name = x := by
    simp only [Progress.conc, List.any_map, List.any_eq_true, Function.comp_apply, Dev.ent,
      decide_eq_true_eq, Option.some_inj, eq_comm (b := number p.seen x), number_inj hx,
      eq_comm (a := x)]
  unfold State.ckdname
  simp only [hany]

/-- The devices, with one more. -/
def Progress.addDev (p : Progress) (d : Dev) : Progress :=
  { p with devs := p.devs ++ [d] }

theorem mkdev_conc (ht : t ∈ p.seen) (hd : d ∈ p.seen) :
    p.conc.mkdev (number p.seen x) (number p.seen t) (number p.seen d) =
      (p.nodes.find? fun n => n.type = t ∧ n.device = d).map fun n =>
        (p.addDev ⟨n, x⟩).conc := by
  have hfind : p.conc.ftypes.find? (fun e =>
      decide (e.tname = number p.seen t ∧ e.device = number p.seen d)) =
      (p.nodes.find? fun n => n.type = t ∧ n.device = d).map (Node.ent (number p.seen)) := by
    simp only [Progress.conc, List.find?_map]
    congr 2
    funext n
    simp only [Function.comp_apply, Node.ent, eq_comm (b := number p.seen t),
      eq_comm (b := number p.seen d), number_inj ht, number_inj hd, eq_comm (a := t),
      eq_comm (a := d)]
  unfold State.mkdev
  rw [hfind]
  cases p.nodes.find? fun n => n.type = t ∧ n.device = d with
  | none => rfl
  | some n => simp [Progress.conc, Progress.addDev, Dev.ent]

-- ---------------------------------------------------------------------------
-- Attributes of what was declared last
-- ---------------------------------------------------------------------------

variable {σ : Settings} {q : Settings → Progress}

theorem over_cons (a : Attr) (attrs : List Attr) :
    σ.over (a :: attrs) = (σ.over [a]).over attrs := by
  have hlast {α : Type} (f : Attr → Option α) (z : α) : ((a :: attrs).filterMap f).getLastD z =
      (attrs.filterMap f).getLastD (([a].filterMap f).getLastD z) := by
    rw [List.filterMap_cons, List.filterMap_cons, List.filterMap_nil]
    cases f a with
    | none => rfl
    | some b => rw [List.getLastD_cons]; rfl
  unfold Settings.over
  congr 1
  · exact hlast _ _
  · exact hlast _ _
  · exact funext fun r => hlast _ _

/-- The type or the device that was declared last, as far as its attributes go. -/
inductive Slot : (Settings → Progress) → Prop
  | node (p : Progress) (h : p.devs = []) (t d : Name) : Slot fun σ => p.addNode ⟨t, d, σ⟩
  | dev (p : Progress) (t d x : Name) : Slot fun σ => p.addDev ⟨⟨t, d, σ⟩, x⟩

theorem Slot.see (hq : Slot q) (l : List Name) : Slot fun σ => (q σ).see l := by
  cases hq with
  | node p h t d => exact Slot.node (p.see l) h t d
  | dev p t d x => exact Slot.dev (p.see l) t d x

theorem Slot.seen (hq : Slot q) (σ σ' : Settings) : (q σ).seen = (q σ').seen := by
  cases hq with
  | node p h t d => rfl
  | dev p t d x => rfl

/-- Settings do not matter to names. -/
theorem Slot.sound (hq : Slot q) (h : (q σ).Sound) (σ' : Settings) : (q σ').Sound := by
  cases hq with
  | node p hp t d =>
    refine ⟨fun n hn => ?_, h.devs, h.current, h.short, h.fits⟩
    rcases List.mem_append.mp hn with hn | hn
    · exact h.nodes n (List.mem_append_left _ hn)
    · obtain rfl := List.mem_singleton.mp hn
      exact h.nodes ⟨t, d, σ⟩ (List.mem_append_right _ (List.mem_singleton_self _))
  | dev p t d x =>
    refine ⟨h.nodes, fun e he => ?_, h.current, h.short, h.fits⟩
    rcases List.mem_append.mp he with he | he
    · exact h.devs e (List.mem_append_left _ he)
    · obtain rfl := List.mem_singleton.mp he
      exact h.devs ⟨⟨t, d, σ⟩, x⟩ (List.mem_append_right _ (List.mem_singleton_self _))

/-- An attribute of a slot, by the key, the value and the name of the value. -/
def Settings.set (σ : Settings) (tok : Key) (val : ℤ) (c : Name) : Settings :=
  match tok with
  | .csr => { σ with csr := val }
  | .irq => { σ with irq := val }
  | .routine r => { σ with routine := Function.update σ.routine r c }

/-- The name of a value, if it is a symbol. -/
def nameAt (symtab : List SymEnt) (val : ℤ) : Option Name :=
  if 0 ≤ val then (symtab[val.toNat]?).map SymEnt.name else none

theorem nameAt_conc (val : ℤ) : nameAt p.conc.symtab val =
    if 0 ≤ val then (internAll p.seen)[val.toNat]? else none := by
  unfold nameAt Progress.conc
  rw [List.getElem?_map, Option.map_map]
  exact if_congr Iff.rfl Option.map_id' rfl

theorem nameAt_number (hx : x ∈ p.seen) : nameAt p.conc.symtab (number p.seen x) = some x := by
  rw [nameAt_conc, if_pos (Int.natCast_nonneg _), Int.toNat_natCast]
  exact Interning.getElem?_number hx

/-- The check of `newattr` never fails: `lookup` has cut the names. -/
theorem nameAt_short (hp : p.Sound) (val : ℤ) :
    (nameAt p.conc.symtab val).any (CONFMAXNM ≤ ·.length) = false := by
  rw [nameAt_conc]
  split_ifs with hval
  · cases hx : (internAll p.seen)[val.toNat]? with
    | none => rfl
    | some x =>
      have hmem : x ∈ p.seen := Interning.mem_internAll.mp (List.mem_of_getElem? hx)
      exact decide_eq_false (Nat.not_le.mpr (hp.short x hmem))
  · rfl

theorem ent_set {num : Name → ℕ} {tok : Key} {val : ℤ} {c : Name} {c' : Option Name} (n : Node)
    (hc : ∀ r, tok = .routine r → c' = some c) :
    (n.ent num).set tok val c' =
      some ({ n with settings := n.settings.set tok val c }.ent num) := by
  cases tok with
  | csr => rfl
  | irq => rfl
  | routine r => rw [hc r rfl]; rfl

theorem dev_ent_set {num : Name → ℕ} {tok : Key} {val : ℤ} {c : Name} {c' : Option Name} (d : Dev)
    (hc : ∀ r, tok = .routine r → c' = some c) :
    (d.ent num).set tok val c' =
      some ({ d with settings := d.settings.set tok val c }.ent num) := by
  cases tok with
  | csr => rfl
  | irq => rfl
  | routine r => rw [hc r rfl]; rfl

theorem newattr_conc (hq : Slot q) (h : (q σ).Sound) {tok : Key} {val : ℤ} {c : Name}
    (hc : ∀ r, tok = .routine r → c ∈ (q σ).seen ∧ val = number (q σ).seen c) :
    (q σ).conc.newattr tok val = some (q (σ.set tok val c)).conc := by
  have hname : ∀ r, tok = .routine r → nameAt (q σ).conc.symtab val = some c := by
    intro r hr
    obtain ⟨hmem, rfl⟩ := hc r hr
    exact nameAt_number hmem
  have hshort := nameAt_short h val
  unfold nameAt at hname hshort
  unfold State.newattr
  dsimp only
  rw [if_neg (Bool.eq_false_iff.mp hshort)]
  cases hq with
  | node p hp t d =>
    have hdevs : (p.addNode ⟨t, d, σ⟩).conc.devs.getLast? = none := by
      simp [Progress.conc, Progress.addNode, hp]
    have hftypes : (p.addNode ⟨t, d, σ⟩).conc.ftypes.getLast? =
        some (Node.ent (number p.seen) ⟨t, d, σ⟩) := by
      simp [Progress.conc, Progress.addNode]
    rw [hdevs]
    dsimp only
    rw [hftypes, Option.bind_eq_bind, Option.bind_some, ent_set _ hname, Option.bind_some]
    simp [Progress.conc, Progress.addNode]
  | dev p t d x =>
    have hdevs : (p.addDev ⟨⟨t, d, σ⟩, x⟩).conc.devs.getLast? =
        some (Dev.ent (number p.seen) ⟨⟨t, d, σ⟩, x⟩) := by
      simp [Progress.conc, Progress.addDev]
    rw [hdevs]
    dsimp only
    rw [Option.bind_eq_bind, dev_ent_set _ hname, Option.bind_some]
    simp [Progress.conc, Progress.addDev]

theorem over_singleton (a : Attr) : σ.over [a] =
    match a with
    | .csr text => σ.set .csr (config_atoi text) []
    | .irq text => σ.set .irq (config_atoi text) []
    | .routine r id => σ.set (.routine r) 0 (truncated id) := by
  cases a with
  | csr text => rfl
  | irq text => rfl
  | routine r id =>
    unfold Settings.over Settings.set
    congr 1
    funext r'
    by_cases hr : r' = r
    · subst hr
      simp [Attr.routine?]
    · simp [Attr.routine?, hr]

theorem see_nil : p.see [] = p := by
  rw [Progress.see, List.append_nil]

theorem see_append (l l' : List Name) : p.see (l ++ l') = (p.see l).see l' := by
  simp only [Progress.see, List.append_assoc]

theorem Attr.length_names (a : Attr) : ∀ x ∈ a.names, x.length < CONFMAXNM := by
  intro x hx
  cases a with
  | routine r id =>
    obtain rfl := List.mem_singleton.mp hx
    exact length_truncated id
  | csr text => cases hx
  | irq text => cases hx

/-- An attribute goes to the slot. -/
theorem attr_run (hq : Slot q) (h : (q σ).Sound) (a : Attr) :
    a.run (q σ).conc =
      if Fits ((q σ).seen ++ a.names) then some ((q (σ.over [a])).see a.names).conc else none := by
  rw [over_singleton]
  cases a with
  | csr text =>
    rw [Attr.names, List.append_nil, if_pos h.fits, see_nil]
    exact newattr_conc hq h nofun
  | irq text =>
    rw [Attr.names, List.append_nil, if_pos h.fits, see_nil]
    exact newattr_conc hq h nofun
  | routine r id =>
    have hnames : (Attr.routine r id).names = [truncated id] := rfl
    rw [Attr.run, lookup_conc h, hnames]
    by_cases hroom : Fits ((q σ).seen ++ [truncated id])
    · have hsee := h.see (Attr.routine r id).length_names hroom
      rw [if_pos hroom, if_pos hroom]
      exact newattr_conc (hq.see [truncated id]) hsee fun _ _ =>
        ⟨List.mem_append_right _ (List.mem_singleton_self _), rfl⟩
    · rw [if_neg hroom, if_neg hroom]
      rfl

/-- **A list of attributes**: the last one of each kind counts. -/
theorem attrs_run (hq : Slot q) (h : (q σ).Sound) (attrs : List Attr) :
    attrs.foldlM Attr.run (q σ).conc =
      if Fits ((q σ).seen ++ attrs.flatMap Attr.names) then
        some ((q (σ.over attrs)).see (attrs.flatMap Attr.names)).conc
      else none := by
  induction attrs generalizing q σ with
  | nil =>
    rw [List.flatMap_nil, List.append_nil, if_pos h.fits, see_nil]
    rfl
  | cons a attrs ih =>
    rw [List.foldlM_cons, attr_run hq h, List.flatMap_cons, ← List.append_assoc]
    by_cases hroom : Fits ((q σ).seen ++ a.names)
    · have hsound := (hq.sound h (σ.over [a])).see a.length_names (hq.seen σ _ ▸ hroom)
      rw [if_pos hroom, Option.bind_eq_bind, Option.bind_some, ih (hq.see a.names) hsound,
        over_cons a attrs, see_append, Progress.see, hq.seen (σ.over [a]) σ]
    · rw [if_neg hroom, if_neg fun hall => hroom hall.left]
      rfl

-- ---------------------------------------------------------------------------
-- Types
-- ---------------------------------------------------------------------------

theorem Progress.Sound.addNode (hp : p.Sound) (ht : t ∈ p.seen) (hd : d ∈ p.seen) :
    (p.addNode ⟨t, d, σ⟩).Sound where
  nodes n hn := by
    rcases List.mem_append.mp hn with hn | hn
    · exact hp.nodes n hn
    · obtain rfl := List.mem_singleton.mp hn
      exact ⟨ht, hd⟩
  devs := hp.devs
  current := hp.current
  short := hp.short
  fits := hp.fits

theorem length_attr_names (attrs : List Attr) :
    ∀ x ∈ attrs.flatMap Attr.names, x.length < CONFMAXNM := by
  intro x hx
  obtain ⟨a, -, hx⟩ := List.mem_flatMap.mp hx
  exact a.length_names x hx

theorem DevList.length_names (e : DevList) : ∀ x ∈ e.names, x.length < CONFMAXNM := by
  intro x hx
  rcases List.mem_cons.mp hx with rfl | hx
  · exact length_truncated _
  · exact length_attr_names _ x hx

/-- The nodes of types, numbered on. -/
def nodesFrom (behind : ℕ → Routine → Name) (k : ℕ) (l : List (Name × DevList)) : List Node :=
  l.mapIdx fun i => nodeOf behind (k + i)

theorem nodesFrom_cons (k : ℕ) (e : Name × DevList) (l : List (Name × DevList)) :
    nodesFrom behind k (e :: l) = nodeOf behind k e :: nodesFrom behind (k + 1) l := by
  unfold nodesFrom
  rw [List.mapIdx_cons]
  congr 2
  funext i
  rw [Nat.add_assoc, Nat.add_comm 1 i]

theorem nodesFrom_append (k : ℕ) (l l' : List (Name × DevList)) :
    nodesFrom behind k (l ++ l') = nodesFrom behind k l ++ nodesFrom behind (k + l.length) l' := by
  unfold nodesFrom
  rw [List.mapIdx_append]
  congr 2
  funext i
  rw [Nat.add_assoc, Nat.add_comm i]

/-- The devices of a type are declared. -/
def Progress.declare (behind : ℕ → Routine → Name) (p : Progress) (tname : Name)
    (l : List DevList) : Progress :=
  { p with
    seen := p.seen ++ l.flatMap DevList.names
    nodes := p.nodes ++ nodesFrom behind p.nodes.length (l.map (tname, ·)) }

theorem devList_run {tname : Name} (hp : p.Sound) (ht : p.current = some (truncated tname))
    (hdevs : p.devs = []) (e : DevList) :
    e.run behind p.conc =
      if Fits (p.seen ++ e.names) ∧
          ¬∃ n ∈ p.nodes, n.type = truncated tname ∧ n.device = truncated e.device then
        some (p.declare behind tname [e]).conc
      else none := by
  have hseen : p.seen ++ e.names =
      p.seen ++ [truncated e.device] ++ e.attrs.flatMap Attr.names := by
    rw [List.append_assoc]
    rfl
  have htype : truncated tname ∈ p.seen := hp.current _ (by rw [ht]; rfl)
  rw [DevList.run, lookup_conc hp, hseen]
  by_cases hfits : Fits (p.seen ++ [truncated e.device])
  · have hsee := hp.seeOne hfits
    have hmem : truncated e.device ∈ (p.see [truncated e.device]).seen :=
      List.mem_append_right _ (List.mem_singleton_self _)
    have hmktype : (p.see [truncated e.device]).conc.mktype behind
        (number (p.seen ++ [truncated e.device]) (truncated e.device)) =
          if ∃ n ∈ p.nodes, n.type = truncated tname ∧ n.device = truncated e.device then none
          else some ((p.see [truncated e.device]).addNode
            ⟨truncated tname, truncated e.device, defaults (behind p.nodes.length)⟩).conc :=
      mktype_conc hsee ht hmem
    rw [if_pos hfits, Option.bind_eq_bind, Option.bind_some]
    dsimp only
    rw [hmktype]
    by_cases hold : ∃ n ∈ p.nodes, n.type = truncated tname ∧ n.device = truncated e.device
    · rw [if_pos hold, if_neg fun h => h.2 hold]
      rfl
    · have hslot := Slot.node (p.see [truncated e.device]) hdevs (truncated tname)
        (truncated e.device)
      have hsound := hsee.addNode (σ := defaults (behind p.nodes.length))
        (List.mem_append_left _ htype) hmem
      rw [if_neg hold]
      refine (attrs_run hslot hsound e.attrs).trans ?_
      refine if_congr (and_iff_left hold).symm ?_ rfl
      simp [Progress.declare, Progress.see, Progress.addNode, DevList.names, nodesFrom, nodeOf]
  · rw [if_neg hfits, if_neg fun h => hfits h.1.left]
    rfl

theorem mem_nodesFrom {k : ℕ} {l : List (Name × DevList)} {n : Node}
    (hn : n ∈ nodesFrom behind k l) :
    ∃ e ∈ l, n.type = truncated e.1 ∧ n.device = truncated e.2.device := by
  obtain ⟨i, hi, rfl⟩ := List.mem_mapIdx.mp hn
  exact ⟨l[i], List.getElem_mem hi, rfl, rfl⟩

theorem exists_nodesFrom {k : ℕ} {l : List (Name × DevList)} {e : Name × DevList} (he : e ∈ l) :
    ∃ n ∈ nodesFrom behind k l, n.type = truncated e.1 ∧ n.device = truncated e.2.device := by
  obtain ⟨i, hi, rfl⟩ := List.getElem_of_mem he
  exact ⟨_, List.mem_mapIdx.mpr ⟨i, hi, rfl⟩, rfl, rfl⟩

theorem device_mem_names {e : DevList} {l : List DevList} (he : e ∈ l) :
    truncated e.device ∈ l.flatMap DevList.names :=
  List.mem_flatMap.mpr ⟨e, he, List.mem_cons_self⟩

theorem Progress.Sound.declare {tname : Name} {l : List DevList} (hp : p.Sound)
    (ht : truncated tname ∈ p.seen) (hfits : Fits (p.seen ++ l.flatMap DevList.names)) :
    (p.declare behind tname l).Sound := by
  have hsee : (p.see (l.flatMap DevList.names)).Sound := by
    refine hp.see (fun x hx => ?_) hfits
    obtain ⟨e, -, hx⟩ := List.mem_flatMap.mp hx
    exact e.length_names x hx
  refine ⟨fun n hn => ?_, hsee.devs, hsee.current, hsee.short, hfits⟩
  rcases List.mem_append.mp hn with hn | hn
  · exact hsee.nodes n hn
  · obtain ⟨e, he, htype, hdevice⟩ := mem_nodesFrom hn
    obtain ⟨e, hmem, rfl⟩ := List.mem_map.mp he
    rw [htype, hdevice]
    exact ⟨List.mem_append_left _ ht, List.mem_append_right _ (device_mem_names hmem)⟩

theorem declare_cons (tname : Name) (e : DevList) (l : List DevList) :
    p.declare behind tname (e :: l) = (p.declare behind tname [e]).declare behind tname l := by
  simp only [Progress.declare, List.flatMap_cons, List.flatMap_nil, List.append_nil, List.map_cons,
    List.map_nil, nodesFrom_cons, List.append_assoc, List.length_append, List.length_cons,
    List.cons_append]
  rfl

/-- **The devices of a type**: each must be new. -/
theorem devLists_run {tname : Name} (hp : p.Sound) (ht : p.current = some (truncated tname))
    (hdevs : p.devs = []) (l : List DevList) :
    l.foldlM (DevList.run behind) p.conc =
      if Fits (p.seen ++ l.flatMap DevList.names) ∧
          (∀ e ∈ l, ¬∃ n ∈ p.nodes, n.type = truncated tname ∧ n.device = truncated e.device) ∧
          (l.map fun e => truncated e.device).Nodup then
        some (p.declare behind tname l).conc
      else none := by
  induction l generalizing p with
  | nil =>
    have hdeclare : p.declare behind tname [] = p := by simp [Progress.declare, nodesFrom]
    rw [hdeclare, if_pos ⟨by simpa using hp.fits, nofun, List.nodup_nil⟩]
    rfl
  | cons e l ih =>
    rw [List.foldlM_cons, devList_run hp ht hdevs, List.flatMap_cons, ← List.append_assoc]
    by_cases hone : Fits (p.seen ++ e.names) ∧
        ¬∃ n ∈ p.nodes, n.type = truncated tname ∧ n.device = truncated e.device
    · have hsound : (p.declare behind tname [e]).Sound := by
        refine hp.declare (hp.current _ (by rw [ht]; rfl)) ?_
        rw [List.flatMap_singleton]
        exact hone.1
      rw [if_pos hone]
      refine (ih hsound ht hdevs).trans ?_
      rw [← declare_cons]
      refine if_congr ?_ rfl rfl
      have hseen : (p.declare behind tname [e]).seen = p.seen ++ e.names := by
        rw [Progress.declare, List.flatMap_singleton]
      have hnew : nodeOf behind p.nodes.length (tname, e) ∈ (p.declare behind tname [e]).nodes :=
        List.mem_append_right _ (List.mem_singleton_self _)
      rw [hseen, List.map_cons, List.nodup_cons]
      constructor
      · rintro ⟨hfits, hfresh, hnodup⟩
        refine ⟨hfits, fun x hx hold => ?_, fun hmem => ?_, hnodup⟩
        · rcases List.mem_cons.mp hx with rfl | hx
          · exact hone.2 hold
          · obtain ⟨n, hn, hsame⟩ := hold
            exact hfresh x hx ⟨n, List.mem_append_left _ hn, hsame⟩
        · obtain ⟨x, hx, hsame⟩ := List.mem_map.mp hmem
          exact hfresh x hx ⟨_, hnew, rfl, hsame.symm⟩
      · rintro ⟨hfits, hfresh, hnot, hnodup⟩
        refine ⟨hfits, fun x hx hold => ?_, hnodup⟩
        obtain ⟨n, hn, htype, hdevice⟩ := hold
        rcases List.mem_append.mp hn with hn | hn
        · exact hfresh x (List.mem_cons_of_mem e hx) ⟨n, hn, htype, hdevice⟩
        · obtain rfl := List.mem_singleton.mp hn
          exact hnot (List.mem_map.mpr ⟨x, hx, hdevice.symm⟩)
    · rw [if_neg hone, if_neg]
      · rfl
      · exact fun h => hone ⟨h.1.left, h.2.1 e List.mem_cons_self⟩

/-- The type whose devices are listed. -/
def Progress.turn (p : Progress) (t : Name) : Progress :=
  { p.see [t] with current := some t }

def Progress.ftype (behind : ℕ → Routine → Name) (p : Progress) (f : Ftype) : Progress :=
  (p.turn (truncated f.tname)).declare behind f.tname f.devLists

theorem Progress.Sound.turn (hp : p.Sound) {str : Name} (hfits : Fits (p.seen ++ [truncated str])) :
    (p.turn (truncated str)).Sound := by
  have hsee := hp.seeOne hfits
  refine ⟨hsee.nodes, hsee.devs, fun t ht => ?_, hsee.short, hsee.fits⟩
  obtain rfl := Option.some.inj ht
  exact List.mem_append_right _ (List.mem_singleton_self _)

theorem ftype_seen (f : Ftype) : (p.ftype behind f).seen = p.seen ++ f.names :=
  List.append_assoc _ _ _

theorem Progress.Sound.ftype (hp : p.Sound) {f : Ftype} (hfits : Fits (p.seen ++ f.names)) :
    (p.ftype behind f).Sound := by
  have hfits : Fits (p.ftype behind f).seen := by rw [ftype_seen]; exact hfits
  exact (hp.turn (Fits.left hfits)).declare (List.mem_append_right _ (List.mem_singleton_self _)) hfits

/-- **A type**: its name must be new. -/
theorem ftype_run (hp : p.Sound) (hdevs : p.devs = []) (f : Ftype) :
    f.run behind p.conc =
      if Fits (p.seen ++ f.names) ∧ (¬∃ n ∈ p.nodes, n.type = truncated f.tname) ∧
          (f.devLists.map fun e => truncated e.device).Nodup then
        some (p.ftype behind f).conc
      else none := by
  have hseen : p.seen ++ f.names =
      p.seen ++ [truncated f.tname] ++ f.devLists.flatMap DevList.names := by
    rw [List.append_assoc]
    rfl
  rw [Ftype.run, lookup_conc hp, hseen]
  by_cases hfits : Fits (p.seen ++ [truncated f.tname])
  · have hmem : truncated f.tname ∈ (p.see [truncated f.tname]).seen :=
      List.mem_append_right _ (List.mem_singleton_self _)
    have hcktname : (p.see [truncated f.tname]).conc.cktname
        (number (p.seen ++ [truncated f.tname]) (truncated f.tname)) =
          if ∃ n ∈ p.nodes, n.type = truncated f.tname then none
          else some (number (p.seen ++ [truncated f.tname]) (truncated f.tname)) :=
      cktname_conc hmem
    rw [if_pos hfits, Option.bind_eq_bind, Option.bind_some]
    dsimp only
    rw [hcktname]
    by_cases hold : ∃ n ∈ p.nodes, n.type = truncated f.tname
    · rw [if_pos hold, if_neg fun h => h.2.1 hold]
      rfl
    · rw [if_neg hold]
      refine (devLists_run (p := p.turn (truncated f.tname)) (hp.turn hfits) rfl hdevs
        f.devLists).trans (if_congr ?_ rfl rfl)
      refine and_congr_right fun _ => and_congr_left fun _ => iff_of_true ?_ hold
      rintro e - ⟨n, hn, htype, -⟩
      exact hold ⟨n, hn, htype⟩
  · rw [if_neg hfits, if_neg fun h => hfits h.1.left]
    rfl

/-- **The types** of a configuration. -/
theorem ftypes_run (hp : p.Sound) (hdevs : p.devs = []) (fs : List Ftype) :
    fs.foldlM (Ftype.run behind) p.conc =
      if Fits (p.seen ++ fs.flatMap Ftype.names) ∧
          (∀ f ∈ fs, ¬∃ n ∈ p.nodes, n.type = truncated f.tname) ∧
          (∀ f ∈ fs, (f.devLists.map fun e => truncated e.device).Nodup) ∧
          (fs.map fun f => truncated f.tname).Nodup then
        some (fs.foldl (Progress.ftype behind) p).conc
      else none := by
  induction fs generalizing p with
  | nil =>
    rw [if_pos ⟨by simpa using hp.fits, nofun, nofun, List.nodup_nil⟩]
    rfl
  | cons f fs ih =>
    rw [List.foldlM_cons, ftype_run hp hdevs, List.flatMap_cons, ← List.append_assoc]
    by_cases hone : Fits (p.seen ++ f.names) ∧ (¬∃ n ∈ p.nodes, n.type = truncated f.tname) ∧
        (f.devLists.map fun e => truncated e.device).Nodup
    · have hsound : (p.ftype behind f).Sound := hp.ftype hone.1
      have hnew : ∃ n ∈ nodesFrom behind p.nodes.length f.declared,
          n.type = truncated f.tname ∧ n.device = truncated f.first.device :=
        exists_nodesFrom (e := (f.tname, f.first)) List.mem_cons_self
      rw [if_pos hone]
      refine (ih hsound hdevs).trans ?_
      rw [List.foldl_cons, ftype_seen]
      refine if_congr ?_ rfl rfl
      rw [List.map_cons, List.nodup_cons]
      constructor
      · rintro ⟨hfits, hfresh, hlists, hnodup⟩
        refine ⟨hfits, fun x hx hold => ?_, fun x hx => ?_, fun hmem => ?_, hnodup⟩
        · rcases List.mem_cons.mp hx with rfl | hx
          · exact hone.2.1 hold
          · obtain ⟨n, hn, hsame⟩ := hold
            exact hfresh x hx ⟨n, List.mem_append_left _ hn, hsame⟩
        · rcases List.mem_cons.mp hx with rfl | hx
          · exact hone.2.2
          · exact hlists x hx
        · obtain ⟨x, hx, hsame⟩ := List.mem_map.mp hmem
          obtain ⟨n, hn, htype, -⟩ := hnew
          exact hfresh x hx ⟨n, List.mem_append_right _ hn, htype.trans hsame.symm⟩
      · rintro ⟨hfits, hfresh, hlists, hnot, hnodup⟩
        refine ⟨hfits, fun x hx hold => ?_, fun x hx => hlists x (List.mem_cons_of_mem f hx),
          hnodup⟩
        obtain ⟨n, hn, htype⟩ := hold
        rcases List.mem_append.mp hn with hn | hn
        · exact hfresh x (List.mem_cons_of_mem f hx) ⟨n, hn, htype⟩
        · obtain ⟨e, he, htype', -⟩ := mem_nodesFrom hn
          obtain ⟨e, -, rfl⟩ := List.mem_map.mp he
          exact hnot (List.mem_map.mpr ⟨x, hx, htype.symm.trans htype'⟩)
    · rw [if_neg hone, if_neg]
      · rfl
      · exact fun h => hone ⟨h.1.left, h.2.1 f List.mem_cons_self, h.2.2.1 f List.mem_cons_self⟩

theorem Progress.Sound.ftypes {fs : List Ftype} (hp : p.Sound)
    (hfits : Fits (p.seen ++ fs.flatMap Ftype.names)) :
    (fs.foldl (Progress.ftype behind) p).Sound := by
  induction fs generalizing p with
  | nil => exact hp
  | cons f fs ih =>
    rw [List.flatMap_cons, ← List.append_assoc] at hfits
    refine ih (hp.ftype hfits.left) ?_
    rw [ftype_seen]
    exact hfits

/-- Where the types end. -/
theorem ftypes_end (fs : List Ftype) :
    (fs.foldl (Progress.ftype behind) p).seen = p.seen ++ fs.flatMap Ftype.names ∧
    (fs.foldl (Progress.ftype behind) p).nodes =
      p.nodes ++ nodesFrom behind p.nodes.length (fs.flatMap Ftype.declared) ∧
    (fs.foldl (Progress.ftype behind) p).devs = p.devs := by
  induction fs generalizing p with
  | nil => simp [nodesFrom]
  | cons f fs ih =>
    obtain ⟨hseen, hnodes, hdevs⟩ := ih (p := p.ftype behind f)
    have hlength : (nodesFrom behind p.nodes.length f.declared).length = f.declared.length :=
      List.length_mapIdx
    refine ⟨?_, ?_, hdevs⟩
    · rw [List.foldl_cons, hseen, List.flatMap_cons, ← List.append_assoc]
      exact congrArg (· ++ _) (List.append_assoc _ _ _)
    · rw [List.foldl_cons, hnodes, List.flatMap_cons, nodesFrom_append, ← List.append_assoc,
        ← hlength, ← List.length_append]
      rfl

-- ---------------------------------------------------------------------------
-- Devices
-- ---------------------------------------------------------------------------

/-- A device that was declared. -/
def Progress.descriptor (p : Progress) (e : Dev) (d : Descriptor) : Progress :=
  (p.addDev e).see d.names

theorem Descriptor.length_names (d : Descriptor) : ∀ x ∈ d.names, x.length < CONFMAXNM := by
  intro x hx
  rcases List.mem_cons.mp hx with rfl | hx
  · exact length_truncated _
  rcases List.mem_cons.mp hx with rfl | hx
  · exact length_truncated _
  rcases List.mem_append.mp hx with hx | hx
  · obtain ⟨y, -, rfl⟩ := Option.map_eq_some_iff.mp (Option.mem_toList.mp hx)
    exact length_truncated _
  · exact length_attr_names _ x hx

/-- A copy of the type, with what the device is on looked up first. -/
theorem onRun_mkdev {first : Name} (hp : p.Sound)
    (hfirst : p.nodes ≠ [] → p.seen.head? = some first) (hx : x ∈ p.seen) (ht : t ∈ p.seen)
    (on : Option Name) :
    (onRun p.conc on >>= fun r => r.2.mkdev (number p.seen x) (number p.seen t) r.1) =
      if Fits (p.seen ++ (on.map truncated).toList) then
        (p.nodes.find? fun n => n.type = t ∧ n.device = (on.map truncated).getD first).map fun n =>
          ((p.see (on.map truncated).toList).addDev ⟨n, x⟩).conc
      else none := by
  cases on with
  | none =>
    have hroom : Fits (p.seen ++ []) := by rw [List.append_nil]; exact hp.fits
    refine Eq.trans ?_ (if_pos hroom).symm
    rw [Option.map_none, Option.toList_none, see_nil, Option.getD_none]
    by_cases hnodes : p.nodes = []
    · rw [hnodes]
      simp [onRun, State.mkdev, Progress.conc, hnodes]
    · obtain ⟨rest, hseen⟩ := List.head?_eq_some_iff.mp (hfirst hnodes)
      have hzero : number p.seen first = 0 := by rw [hseen]; exact Interning.number_head
      have hmem : first ∈ p.seen := by rw [hseen]; exact List.mem_cons_self
      rw [← mkdev_conc ht hmem, hzero]
      rfl
  | some y =>
    have hlist : (Option.map truncated (some y)).toList = [truncated y] := rfl
    rw [onRun, lookup_conc hp, hlist, Option.map_some, Option.getD_some]
    by_cases hroom : Fits (p.seen ++ [truncated y])
    · have hmem : truncated y ∈ (p.see [truncated y]).seen :=
        List.mem_append_right _ (List.mem_singleton_self _)
      have hmkdev : (p.see [truncated y]).conc.mkdev (number (p.seen ++ [truncated y]) x)
          (number (p.seen ++ [truncated y]) t) (number (p.seen ++ [truncated y]) (truncated y)) =
            (p.nodes.find? fun n => n.type = t ∧ n.device = truncated y).map fun n =>
              ((p.see [truncated y]).addDev ⟨n, x⟩).conc :=
        mkdev_conc (List.mem_append_left [truncated y] ht) hmem
      rw [number_append hx, number_append ht] at hmkdev
      rw [if_pos hroom, if_pos hroom, ← hmkdev]
      rfl
    · rw [if_neg hroom, if_neg hroom]
      rfl

theorem Progress.Sound.addDev {n : Node} (hp : p.Sound) (hn : n ∈ p.nodes) (hx : x ∈ p.seen) :
    (p.addDev ⟨{ n with settings := σ }, x⟩).Sound where
  nodes := hp.nodes
  devs e he := by
    rcases List.mem_append.mp he with he | he
    · exact hp.devs e he
    · obtain rfl := List.mem_singleton.mp he
      exact ⟨hx, hp.nodes n hn⟩
  current := hp.current
  short := hp.short
  fits := hp.fits

/-- **A device**: its name must be new, and its type be declared on what it is on. -/
theorem descriptor_run {first : Name} (hp : p.Sound)
    (hfirst : p.nodes ≠ [] → p.seen.head? = some first) (d : Descriptor) :
    d.run p.conc =
      if Fits (p.seen ++ d.names) ∧ ¬∃ e ∈ p.devs, e.name = truncated d.dname then
        (devOf p.nodes first d).map fun e => (p.descriptor e d).conc
      else none := by
  have hnames : p.seen ++ d.names = p.seen ++ [truncated d.dname] ++ [truncated d.type] ++
      (d.optional_on.map truncated).toList ++ d.attrs.flatMap Attr.names := by
    simp [Descriptor.names]
  rw [Descriptor.run, lookup_conc hp, hnames]
  by_cases hname : Fits (p.seen ++ [truncated d.dname])
  swap
  · rw [if_neg hname, if_neg fun h => hname h.1.left.left.left]
    rfl
  have hckdname : (p.see [truncated d.dname]).conc.ckdname
      (number (p.seen ++ [truncated d.dname]) (truncated d.dname)) =
        if ∃ e ∈ p.devs, e.name = truncated d.dname then none
        else some (number (p.seen ++ [truncated d.dname]) (truncated d.dname)) :=
    ckdname_conc (List.mem_append_right _ (List.mem_singleton_self _))
  rw [if_pos hname, Option.bind_eq_bind, Option.bind_some]
  dsimp only
  rw [hckdname]
  by_cases hold : ∃ e ∈ p.devs, e.name = truncated d.dname
  · rw [if_pos hold, if_neg fun h => h.2 hold]
    rfl
  have hsee := hp.seeOne hname
  rw [if_neg hold]
  refine Eq.trans (b := (p.see [truncated d.dname]).conc.lookup d.type >>= fun r =>
    (onRun r.2 d.optional_on >>= fun o =>
      o.2.mkdev (number (p.seen ++ [truncated d.dname]) (truncated d.dname)) r.1 o.1) >>=
        d.attrs.foldlM Attr.run) ?_ ?_
  · simp only [bind_assoc]
    rfl
  rw [lookup_conc hsee]
  by_cases htype : Fits (p.seen ++ [truncated d.dname] ++ [truncated d.type])
  swap
  · have hroom : ¬Fits ((p.see [truncated d.dname]).seen ++ [truncated d.type]) := htype
    rw [if_neg hroom, if_neg fun h => htype h.1.left.left]
    rfl
  have hroom : Fits ((p.see [truncated d.dname]).seen ++ [truncated d.type]) := htype
  have hsee := hsee.seeOne hroom
  have hx : truncated d.dname ∈ p.seen ++ [truncated d.dname] :=
    List.mem_append_right _ (List.mem_singleton_self _)
  have hhead : p.nodes ≠ [] →
      (p.seen ++ [truncated d.dname] ++ [truncated d.type]).head? = some first := by
    intro hne
    obtain ⟨rest, hseen⟩ := List.head?_eq_some_iff.mp (hfirst hne)
    rw [hseen]
    rfl
  have hmkdev := onRun_mkdev hsee hhead (List.mem_append_left [truncated d.type] hx)
    (List.mem_append_right _ (List.mem_singleton_self _)) d.optional_on
  rw [show number ((p.see [truncated d.dname]).see [truncated d.type]).seen (truncated d.dname) =
    number (p.seen ++ [truncated d.dname]) (truncated d.dname) from number_append hx] at hmkdev
  rw [if_pos hroom]
  refine (congrArg (· >>= d.attrs.foldlM Attr.run) hmkdev).trans ?_
  by_cases hon : Fits (p.seen ++ [truncated d.dname] ++ [truncated d.type] ++
      (d.optional_on.map truncated).toList)
  swap
  · refine (congrArg (· >>= d.attrs.foldlM Attr.run) (if_neg hon)).trans ?_
    rw [if_neg fun h => hon h.1.left]
    rfl
  refine (congrArg (· >>= d.attrs.foldlM Attr.run) (if_pos hon)).trans ?_
  unfold devOf deviceOf
  cases hfind : p.nodes.find? fun n => n.type = truncated d.type ∧
      n.device = (d.optional_on.map truncated).getD first with
  | none =>
    rw [Option.map_none, Option.map_none, ite_self]
    exact congrArg (fun o => Option.map _ o >>= d.attrs.foldlM Attr.run) hfind
  | some n =>
    refine (congrArg (fun o => Option.map _ o >>= d.attrs.foldlM Attr.run) hfind).trans ?_
    have hmem : n ∈ p.nodes := List.mem_of_find?_eq_some hfind
    have hsound := hsee.see (l := (d.optional_on.map truncated).toList) (fun x hx => by
      obtain ⟨y, -, rfl⟩ := Option.map_eq_some_iff.mp (Option.mem_toList.mp hx)
      exact length_truncated _) hon
    have hslot := Slot.dev (((p.see [truncated d.dname]).see [truncated d.type]).see
      (d.optional_on.map truncated).toList) n.type n.device (truncated d.dname)
    have hadded := hsound.addDev (σ := n.settings) hmem
      (List.mem_append_left _ (List.mem_append_left _ hx))
    refine (attrs_run hslot hadded d.attrs).trans (if_congr (and_iff_left hold).symm ?_ rfl)
    simp [Progress.descriptor, Progress.see, Progress.addDev, Descriptor.names]

/-- Devices that were declared. -/
def Progress.describe (p : Progress) (es : List Dev) (ds : List Descriptor) : Progress :=
  { p with seen := p.seen ++ ds.flatMap Descriptor.names, devs := p.devs ++ es }

theorem mem_of_devOf {nodes : List Node} {first : Name} {d : Descriptor} {e : Dev}
    (he : devOf nodes first d = some e) : e.name = truncated d.dname ∧
      ∃ n ∈ nodes, e.toNode = { n with settings := n.settings.over d.attrs } := by
  obtain ⟨n, hn, rfl⟩ := Option.map_eq_some_iff.mp he
  exact ⟨rfl, n, List.mem_of_find?_eq_some hn, rfl⟩

theorem Progress.Sound.descriptor {first : Name} {d : Descriptor} {e : Dev} (hp : p.Sound)
    (he : devOf p.nodes first d = some e) (hfits : Fits (p.seen ++ d.names)) :
    (p.descriptor e d).Sound := by
  obtain ⟨hname, n, hn, hnode⟩ := mem_of_devOf he
  have hsee := hp.see d.length_names hfits
  have hx : truncated d.dname ∈ (p.see d.names).seen :=
    List.mem_append_right _ List.mem_cons_self
  have hadded := hsee.addDev (σ := n.settings.over d.attrs) hn hx
  obtain ⟨node, name⟩ := e
  dsimp only at hname hnode
  rw [hname, hnode]
  exact hadded

/-- **The devices** of a configuration. -/
theorem descriptors_run {first : Name} (hp : p.Sound)
    (hfirst : p.nodes ≠ [] → p.seen.head? = some first) (ds : List Descriptor) :
    ds.foldlM Descriptor.run p.conc =
      if Fits (p.seen ++ ds.flatMap Descriptor.names) ∧
          (∀ d ∈ ds, ¬∃ e ∈ p.devs, e.name = truncated d.dname) ∧
          (ds.map fun d => truncated d.dname).Nodup then
        (ds.mapM (devOf p.nodes first)).map fun es => (p.describe es ds).conc
      else none := by
  induction ds generalizing p with
  | nil =>
    rw [if_pos ⟨by simpa using hp.fits, nofun, List.nodup_nil⟩]
    simp [Progress.describe]
  | cons d ds ih =>
    rw [List.foldlM_cons, descriptor_run hp hfirst, List.flatMap_cons, ← List.append_assoc,
      List.mapM_cons]
    by_cases hone : Fits (p.seen ++ d.names) ∧ ¬∃ e ∈ p.devs, e.name = truncated d.dname
    swap
    · rw [if_neg hone, if_neg fun h => hone ⟨h.1.left, h.2.1 d List.mem_cons_self⟩]
      rfl
    rw [if_pos hone]
    cases he : devOf p.nodes first d with
    | none => exact (ite_self none).symm
    | some e =>
      have hsound := hp.descriptor he hone.1
      have hnext : p.nodes ≠ [] → (p.seen ++ d.names).head? = some first := by
        intro hne
        obtain ⟨rest, hseen⟩ := List.head?_eq_some_iff.mp (hfirst hne)
        rw [hseen]
        rfl
      have hname := (mem_of_devOf he).1
      refine (ih hsound hnext).trans ?_
      refine if_congr ?_ ?_ rfl
      · rw [List.map_cons, List.nodup_cons]
        constructor
        · rintro ⟨hfits, hfresh, hnodup⟩
          refine ⟨hfits, fun x hx hold => ?_, fun hmem => ?_, hnodup⟩
          · rcases List.mem_cons.mp hx with rfl | hx
            · exact hone.2 hold
            · obtain ⟨y, hy, hsame⟩ := hold
              exact hfresh x hx ⟨y, List.mem_append_left _ hy, hsame⟩
          · obtain ⟨x, hx, hsame⟩ := List.mem_map.mp hmem
            exact hfresh x hx ⟨e, List.mem_append_right _ (List.mem_singleton_self _),
              hname.trans hsame.symm⟩
        · rintro ⟨hfits, hfresh, hnot, hnodup⟩
          refine ⟨hfits, fun x hx hold => ?_, hnodup⟩
          obtain ⟨y, hy, hsame⟩ := hold
          rcases List.mem_append.mp hy with hy | hy
          · exact hfresh x (List.mem_cons_of_mem d hx) ⟨y, hy, hsame⟩
          · obtain rfl := List.mem_singleton.mp hy
            exact hnot (List.mem_map.mpr ⟨x, hx, hsame.symm.trans hname⟩)
      · have hnodes : (p.descriptor e d).nodes = p.nodes := rfl
        rw [hnodes, Option.bind_eq_bind, Option.bind_some]
        cases ds.mapM (devOf p.nodes first) with
        | none => rfl
        | some es => simp [Progress.describe, Progress.descriptor, Progress.see, Progress.addDev]

theorem Progress.Sound.describe {first : Name} {ds : List Descriptor} {es : List Dev}
    (hp : p.Sound) (hes : ds.mapM (devOf p.nodes first) = some es)
    (hfits : Fits (p.seen ++ ds.flatMap Descriptor.names)) : (p.describe es ds).Sound := by
  induction ds generalizing p es with
  | nil =>
    rw [List.mapM_nil] at hes
    obtain rfl := Option.some.inj hes
    have hend : p.describe [] [] = p := by simp [Progress.describe]
    rw [hend]
    exact hp
  | cons d ds ih =>
    rw [List.mapM_cons] at hes
    obtain ⟨e, he, hes⟩ := Option.bind_eq_some_iff.mp hes
    obtain ⟨es, hrest, hes⟩ := Option.bind_eq_some_iff.mp hes
    obtain rfl := Option.some.inj hes
    rw [List.flatMap_cons, ← List.append_assoc] at hfits
    have hend : p.describe (e :: es) (d :: ds) = (p.descriptor e d).describe es ds := by
      simp [Progress.describe, Progress.descriptor, Progress.see, Progress.addDev]
    rw [hend]
    exact ih (hp.descriptor he hfits.left) hrest hfits

end Xinu.Config
