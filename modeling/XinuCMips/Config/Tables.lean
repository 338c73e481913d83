import XinuCMips.Config.Meaning

/-!
# The tables of a configuration

What `main` writes at the end, and that it is what the configuration means.

* `minors_conc`    — the numbers of the devices of each type, and how many there are;
* `main_eq_some`   — **the program writes exactly what the configuration means**;
* `control_blocks` — **the minor numbers of a type are those below `N<type>`**, each once;
* `omitted_on`     — what a device is on can hardly be left out.
-/

namespace Xinu.Config

open Interning (internAll number)

variable {p : Progress} {behind : ℕ → Routine → Name} {seen : List Name} {f : Name → ℕ}

-- ---------------------------------------------------------------------------
-- Minor numbers
-- ---------------------------------------------------------------------------

/-- The table of symbols with the devices counted so far. -/
def counted (seen : List Name) (f : Name → ℕ) : List SymEnt :=
  (internAll seen).map fun t => ⟨t, f t⟩

theorem textOf_counted {x : Name} (hx : x ∈ seen) :
    textOf (counted seen f) (number seen x) = some x := by
  unfold textOf counted
  rw [List.getElem?_map, Interning.getElem?_number hx]
  rfl

/-- One more device of a type. -/
theorem counted_set {t : Name} (ht : t ∈ seen) :
    (counted seen f).set (number seen t) ⟨t, f t + 1⟩ =
      counted seen (Function.update f t (f t + 1)) := by
  unfold counted
  refine List.ext_getElem? fun i => ?_
  rw [List.getElem?_set, List.getElem?_map, List.getElem?_map]
  by_cases hi : number seen t = i
  · have hat : (internAll seen)[i]? = some t := hi ▸ Interning.getElem?_number ht
    obtain ⟨hlt, -⟩ := List.getElem?_eq_some_iff.mp hat
    rw [if_pos hi, hat, if_pos (by rw [hi, List.length_map]; exact hlt), Option.map_some,
      Function.update_self]
  · rw [if_neg hi]
    cases hat : (internAll seen)[i]? with
    | none => rfl
    | some x =>
      have hne : x ≠ t := by
        rintro rfl
        exact hi (Interning.number_of_getElem? hat)
      rw [Option.map_some, Option.map_some, Function.update_of_ne hne]

/-- A device with its minor number. -/
def Dev.numbered (seen : List Name) (d : Dev) (minor : ℕ) : DevEnt :=
  { d.ent (number seen) with minor := minor }

/-- **Minor numbers** count the devices of the type before, from what there was. -/
theorem minors_conc (l : List Dev) (hl : ∀ d ∈ l, d.type ∈ seen) :
    minors (l.map (Dev.ent (number seen))) (counted seen f) =
      some (l.mapIdx fun i d => d.numbered seen (f d.type + (l.take i).countP (·.type = d.type)),
        counted seen fun t => f t + l.countP (·.type = t)) := by
  induction l generalizing f with
  | nil => rfl
  | cons d l ih =>
    have ht : d.type ∈ seen := hl d List.mem_cons_self
    have hget : (counted seen f)[number seen d.type]? = some ⟨d.type, f d.type⟩ := by
      unfold counted
      rw [List.getElem?_map, Interning.getElem?_number ht]
      rfl
    have hrest := ih (f := Function.update f d.type (f d.type + 1)) fun e he =>
      hl e (List.mem_cons_of_mem d he)
    have htnum : (d.ent (number seen)).tnum = number seen d.type := rfl
    have hone (t : Name) (n : ℕ) : Function.update f d.type (f d.type + 1) t + n =
        f t + (n + if d.type = t then 1 else 0) := by
      by_cases hdt : d.type = t
      · subst hdt
        rw [Function.update_self, if_pos rfl, Nat.add_assoc, Nat.add_comm n]
      · rw [Function.update_of_ne (Ne.symm hdt), if_neg hdt, Nat.add_zero]
    have hcount (t : Name) (l : List Dev) : (d :: l).countP (·.type = t) =
        l.countP (·.type = t) + if d.type = t then 1 else 0 := by
      rw [List.countP_cons]
      simp only [decide_eq_true_eq]
    rw [List.map_cons, minors, htnum, hget, Option.bind_eq_bind, Option.bind_some, counted_set ht,
      hrest, List.mapIdx_cons]
    simp only [List.take_succ_cons, hcount, hone]
    rfl

-- ---------------------------------------------------------------------------
-- The files
-- ---------------------------------------------------------------------------

theorem deviceNames_conc (l : List Dev) (hl : ∀ d ∈ l, d.name ∈ seen ∧ d.type ∈ seen) (i : ℕ) :
    deviceNames (counted seen f) i (l.map (Dev.ent (number seen))) =
      some (l.mapIdx fun j d => ⟨d.name, i + j, d.type⟩) := by
  induction l generalizing i with
  | nil => rfl
  | cons d l ih =>
    obtain ⟨hname, htype⟩ := hl d List.mem_cons_self
    have hrest := ih (fun e he => hl e (List.mem_cons_of_mem d he)) (i + 1)
    have hn : (d.ent (number seen)).name >>= textOf (counted seen f) = some d.name :=
      textOf_counted hname
    have ht : textOf (counted seen f) (d.ent (number seen)).tname = some d.type :=
      textOf_counted htype
    rw [List.map_cons, deviceNames, hn, ht, hrest, List.mapIdx_cons]
    simp only [Option.bind_eq_bind, Option.bind_some, Nat.add_right_comm i 1]
    rfl

theorem devtab_conc (l : List Dev) (hl : ∀ d ∈ l, d.name ∈ seen) (m : ℕ → Dev → ℕ) (k : ℕ) :
    devtab (counted seen f) k (l.mapIdx fun i d => d.numbered seen (m i d)) =
      some (l.mapIdx fun i d =>
        ⟨k + i, m i d, d.name, d.settings.routine, d.settings.csr, d.settings.irq⟩) := by
  induction l generalizing m k with
  | nil => rfl
  | cons d l ih =>
    have hrest := ih (fun e he => hl e (List.mem_cons_of_mem d he)) (fun i => m (i + 1)) (k + 1)
    have hn : (d.numbered seen (m 0 d)).name >>= textOf (counted seen f) = some d.name :=
      textOf_counted (hl d List.mem_cons_self)
    rw [List.mapIdx_cons, devtab, hn, hrest, List.mapIdx_cons]
    simp only [Option.bind_eq_bind, Option.bind_some, Nat.add_right_comm k 1]
    rfl

/-- **What `main` writes**, once the input is accepted. -/
theorem tables_conc (hp : p.Sound) : p.conc.tables = some (tablesOf p.seen p.devs) := by
  have hsymtab : p.conc.symtab = counted p.seen fun _ => 0 := rfl
  have hdevs : p.conc.devs = p.devs.map (Dev.ent (number p.seen)) := rfl
  have hnames := deviceNames_conc (f := fun _ => 0) p.devs
    (fun d hd => ⟨(hp.devs d hd).1, (hp.devs d hd).2.1⟩) 0
  have hminors := minors_conc (f := fun _ => 0) p.devs fun d hd => (hp.devs d hd).2.1
  simp only [Nat.zero_add] at hnames hminors
  have hdevtab := devtab_conc (f := fun t => p.devs.countP (·.type = t)) p.devs
    (fun d hd => (hp.devs d hd).1) (fun i d => (p.devs.take i).countP (·.type = d.type)) 0
  simp only [Nat.zero_add] at hdevtab
  have hcounts : ((counted p.seen fun t => p.devs.countP (·.type = t)).filter (0 < ·.occurs)).map
      (fun e => (e.name.take (CONFMAXNM - 1), e.occurs)) =
        ((internAll p.seen).map fun t => (t, p.devs.countP (·.type = t))).filter (0 < ·.2) := by
    rw [counted, List.filter_map, List.filter_map, List.map_map]
    refine List.map_congr_left fun t ht => ?_
    have hmem : t ∈ p.seen := Interning.mem_internAll.mp (List.mem_filter.mp ht).1
    have hshort : t.take (CONFMAXNM - 1) = t :=
      List.take_of_length_le (Nat.le_of_lt_succ (hp.short t hmem))
    rw [Function.comp_apply, hshort]
  have hndevs : p.conc.ndevs = p.devs.length := rfl
  unfold State.tables
  simp only [hsymtab, hdevs, hnames, hminors, hdevtab, hcounts, hndevs, Option.bind_eq_bind,
    Option.bind_some]
  rfl

-- ---------------------------------------------------------------------------
-- The program
-- ---------------------------------------------------------------------------

/-- Nothing is declared yet. -/
def Progress.start : Progress :=
  { seen := [], current := none, nodes := [], devs := [] }

theorem start_sound : Progress.start.Sound where
  nodes := nofun
  devs := nofun
  current := nofun
  short := nofun
  fits := Nat.zero_le _

/-- Where the types of a configuration end. -/
def Input.typesEnd (behind : ℕ → Routine → Name) (c : Input) : Progress :=
  c.ftypes.foldl (Progress.ftype behind) .start

theorem typesEnd_nodes (c : Input) : (c.typesEnd behind).nodes = c.nodes behind := by
  have hnodes := (@ftypes_end .start behind c.ftypes).2.1
  unfold Input.typesEnd Input.nodes
  rw [hnodes]
  simp [Progress.start, nodesFrom]

theorem typesEnd_seen (c : Input) : (c.typesEnd behind).seen = c.ftypes.flatMap Ftype.names :=
  (@ftypes_end .start behind c.ftypes).1

/-- If there are nodes, the first name is that of a type. -/
theorem typesEnd_head (c : Input) (h : (c.typesEnd behind).nodes ≠ []) :
    (c.typesEnd behind).seen.head? = some (c.names.headD []) := by
  rw [typesEnd_nodes] at h
  rw [typesEnd_seen]
  unfold Input.names
  cases hf : c.ftypes with
  | nil => exact absurd (by rw [Input.nodes, hf]; rfl) h
  | cons f fs => rfl

/-- **The actions do what the configuration means.** -/
theorem input_run (c : Input) : c.run behind >>= State.tables = c.meaning behind := by
  have hdevs : (c.typesEnd behind).devs = [] :=
    (@ftypes_end .start behind c.ftypes).2.2
  have hstart : State.start = Progress.start.conc := rfl
  have htypes := @ftypes_run .start behind start_sound rfl c.ftypes
  have hnone : ∀ f ∈ c.ftypes, ¬∃ n ∈ Progress.start.nodes, n.type = truncated f.tname :=
    fun f _ h => absurd h.choose_spec.1 List.not_mem_nil
  unfold Input.run Input.meaning
  rw [hstart, htypes]
  by_cases htype : Fits (Progress.start.seen ++ c.ftypes.flatMap Ftype.names) ∧
      (∀ f ∈ c.ftypes, ¬∃ n ∈ Progress.start.nodes, n.type = truncated f.tname) ∧
      (∀ f ∈ c.ftypes, (f.devLists.map fun e => truncated e.device).Nodup) ∧
      (c.ftypes.map fun f => truncated f.tname).Nodup
  swap
  · rw [if_neg htype, if_neg fun h => htype ⟨h.room.left, hnone, h.devLists, h.ftypes⟩]
    rfl
  have hsound : (c.typesEnd behind).Sound := start_sound.ftypes htype.1
  have hall : (c.typesEnd behind).seen ++ c.devices.flatMap Descriptor.names = c.names := by
    rw [typesEnd_seen]
    rfl
  have hdescriptors := descriptors_run hsound (typesEnd_head c) c.devices
  rw [hall, hdevs, typesEnd_nodes] at hdescriptors
  rw [if_pos htype]
  refine (congrArg (· >>= State.tables) hdescriptors).trans ?_
  by_cases hwf : c.WellFormed
  swap
  · rw [if_neg hwf, if_neg fun h => hwf ⟨htype.2.2.2, htype.2.2.1, h.2.2, h.1⟩]
    rfl
  have hfresh : ∀ d ∈ c.devices, ¬∃ e ∈ ([] : List Dev), e.name = truncated d.dname :=
    fun d _ h => absurd h.choose_spec.1 List.not_mem_nil
  rw [if_pos hwf, if_pos ⟨hwf.room, hfresh, hwf.devices⟩]
  cases hes : c.devices.mapM (devOf (c.nodes behind) (c.names.headD [])) with
  | none => rfl
  | some es =>
    rw [← typesEnd_nodes] at hes
    have hend := tables_conc (hsound.describe hes (by rw [hall]; exact hwf.room))
    have hseen : ((c.typesEnd behind).describe es c.devices).seen = c.names := hall
    have hdev : ((c.typesEnd behind).describe es c.devices).devs = es := by
      rw [Progress.describe, hdevs, List.nil_append]
    rw [hseen, hdev] at hend
    exact hend

theorem main_tokens (c : Input) : main behind c.tokens = c.meaning behind := by
  rw [main, yyparse_tokens, input_run]

/-- **The program writes exactly what the configuration means**, and it writes nothing if the
input is none, a name is declared twice, a device has no type or the names are too many. -/
theorem main_eq_some (input : List Token) (t : Tables) : main behind input = some t ↔
    ∃ c : Input, input = c.tokens ∧ c.meaning behind = some t := by
  constructor
  · intro h
    obtain ⟨s, hparse, -⟩ := Option.bind_eq_some_iff.mp h
    obtain ⟨c, rfl, -⟩ := yyparse_eq_some.mp hparse
    exact ⟨c, rfl, (main_tokens c).symm.trans h⟩
  · rintro ⟨c, rfl, h⟩
    exact (main_tokens c).trans h

-- ---------------------------------------------------------------------------
-- Control blocks
-- ---------------------------------------------------------------------------

/-- The minor numbers of the devices of a type, in the order of the table. -/
def Tables.minorsOf (t : Tables) (type : Name) : List ℕ :=
  ((t.names.zip t.devtab).filter (·.1.type = type)).map (·.2.dvminor)

/-- Numbers that count what came before of the same kind run from 0 without a gap. -/
theorem count_before {α β : Type} [DecidableEq β] (f : α → β) (k : β) (l : List α) :
    ((l.mapIdx fun i a => (f a, (l.take i).countP (f · = f a))).filter (·.1 = k)).map (·.2) =
      List.range (l.countP (f · = k)) := by
  induction l using List.reverseRecOn with
  | nil => rfl
  | append_singleton l a ih =>
    have hmap : (l ++ [a]).mapIdx (fun i b => (f b, ((l ++ [a]).take i).countP (f · = f b))) =
        (l.mapIdx fun i b => (f b, (l.take i).countP (f · = f b))) ++
          [(f a, l.countP (f · = f a))] := by
      rw [List.mapIdx_concat, List.take_left]
      congr 1
      refine List.mapIdx_eq_mapIdx_iff.mpr fun i hi => ?_
      rw [List.take_append_of_le_length hi.le]
    rw [hmap, List.filter_append, List.map_append, ih, List.countP_append, List.countP_singleton]
    by_cases hk : f a = k
    · subst hk
      simp [List.range_succ]
    · simp [hk]

/-- What the descriptors and their devices have in common. -/
theorem map_of_mapM {α : Type} {nodes : List Node} {first : Name} {g : Dev → α}
    {h : Descriptor → α} (hgh : ∀ d e, devOf nodes first d = some e → g e = h d)
    {ds : List Descriptor} {es : List Dev} (hes : ds.mapM (devOf nodes first) = some es) :
    es.map g = ds.map h := by
  induction ds generalizing es with
  | nil =>
    rw [List.mapM_nil] at hes
    obtain rfl := Option.some.inj hes
    rfl
  | cons d ds ih =>
    rw [List.mapM_cons] at hes
    obtain ⟨e, he, hes⟩ := Option.bind_eq_some_iff.mp hes
    obtain ⟨es, hrest, hes⟩ := Option.bind_eq_some_iff.mp hes
    obtain rfl := Option.some.inj hes
    rw [List.map_cons, List.map_cons, hgh d e he, ih hrest]

theorem type_of_devOf {nodes : List Node} {first : Name} {d : Descriptor} {e : Dev}
    (he : devOf nodes first d = some e) : e.type = truncated d.type := by
  obtain ⟨n, hn, rfl⟩ := Option.map_eq_some_iff.mp he
  have hfound := List.find?_some hn
  exact (of_decide_eq_true hfound).1

theorem minorsOf_tablesOf (names : List Name) (es : List Dev) (type : Name) :
    (tablesOf names es).minorsOf type = List.range (es.countP (·.type = type)) := by
  have hzip : (((tablesOf names es).names.zip (tablesOf names es).devtab).map
      fun r => (r.1.type, r.2.dvminor)) =
        es.mapIdx fun i d => (d.type, (es.take i).countP (·.type = d.type)) := by
    refine List.ext_getElem? fun i => ?_
    cases hi : es[i]? with
    | none => simp [tablesOf, List.getElem?_eq_none_iff.mp hi]
    | some d => simp [tablesOf, List.getElem?_zip_eq_some, hi]
  have hcount := count_before (fun d : Dev => d.type) type es
  rw [← hzip, List.filter_map, List.map_map] at hcount
  exact hcount

/-- A device that leaves `on` out has no type, unless there is one on a device with the name
of the first type. `mkdev` would take any, but for that the number of the device would have to
be negative. -/
theorem omitted_on {c : Input} (hfirst : ∀ n ∈ c.nodes behind, n.device ≠ c.names.headD [])
    {d : Descriptor} (hd : d ∈ c.devices) (hon : d.optional_on = none) :
    main behind c.tokens = none := by
  rw [main_tokens, Input.meaning]
  split_ifs with hwf
  · cases hes : c.devices.mapM (devOf (c.nodes behind) (c.names.headD [])) with
    | none => rfl
    | some es =>
      have hfound := map_of_mapM (g := some) (h := devOf (c.nodes behind) (c.names.headD []))
        (fun d e he => he.symm) hes
      have hmem : devOf (c.nodes behind) (c.names.headD []) d ∈ es.map some := by
        rw [hfound]
        exact List.mem_map_of_mem hd
      obtain ⟨e, -, he⟩ := List.mem_map.mp hmem
      obtain ⟨n, hn, -⟩ := Option.map_eq_some_iff.mp he.symm
      have hmatch := List.find?_some hn
      have hdevice := (of_decide_eq_true hmatch).2
      rw [deviceOf, hon] at hdevice
      exact absurd hdevice (hfirst n (List.mem_of_find?_eq_some hn))
  · rfl

/-- **Every device has a control block of its own**: for each type the minor numbers are those
below `N<type>`, in order, and names and numbers of devices tell them apart. -/
theorem control_blocks {input : List Token} {t : Tables} (h : main behind input = some t) :
    (t.devtab.map Entry.dvname).Nodup ∧
    t.devtab.map Entry.dvnum = List.range t.devtab.length ∧
    (t.names.map fun n => (n.name, n.number)) = t.devtab.map (fun e => (e.dvname, e.dvnum)) ∧
    ∀ type, (∀ n, (type, n) ∈ t.counts → t.minorsOf type = List.range n) ∧
      ((∀ n, (type, n) ∉ t.counts) → t.minorsOf type = []) := by
  obtain ⟨c, -, hmeaning⟩ := (main_eq_some input t).mp h
  unfold Input.meaning at hmeaning
  split_ifs at hmeaning with hwf
  obtain ⟨es, hes, rfl⟩ := Option.map_eq_some_iff.mp hmeaning
  have hname : (tablesOf c.names es).devtab.map Entry.dvname = es.map Dev.name :=
    List.ext_getElem? fun i => by simp [tablesOf, Function.comp_def]
  refine ⟨?_, ?_, ?_, fun type => ⟨fun n hn => ?_, fun hnone => ?_⟩⟩
  · rw [hname, map_of_mapM (fun d e he => (mem_of_devOf he).1) hes]
    exact hwf.devices
  · exact List.ext_getElem (by simp) fun i _ _ => by simp [tablesOf]
  · exact List.ext_getElem? fun i => by simp [tablesOf, Function.comp_def]
  · obtain ⟨hmem, -⟩ := List.mem_filter.mp hn
    obtain ⟨s, -, hs⟩ := List.mem_map.mp hmem
    obtain ⟨rfl, rfl⟩ := Prod.mk.inj hs
    exact minorsOf_tablesOf _ _ _
  · have hzero : es.countP (·.type = type) = 0 := by
      rw [List.countP_eq_zero]
      intro e he htype
      have htype := of_decide_eq_true htype
      subst htype
      have hgiven : e.type ∈ c.devices.map fun d => truncated d.type := by
        rw [← map_of_mapM (fun d e => type_of_devOf) hes]
        exact List.mem_map_of_mem he
      obtain ⟨d, hd, hsame⟩ := List.mem_map.mp hgiven
      have hname : e.type ∈ c.names := by
        refine List.mem_append_right _ (List.mem_flatMap.mpr ⟨d, hd, ?_⟩)
        rw [← hsame]
        exact List.mem_cons_of_mem _ List.mem_cons_self
      refine hnone _ (List.mem_filter.mpr ⟨List.mem_map.mpr ⟨e.type,
        Interning.mem_internAll.mpr hname, rfl⟩, decide_eq_true ?_⟩)
      exact List.countP_pos_iff.mpr ⟨e, he, decide_eq_true rfl⟩
    rw [minorsOf_tablesOf, hzero, List.range_zero]

/-- Two terminals on one kind of device. -/
def twoTtys : List Token :=
  [.IDENT ['t', 't', 'y'], .COLON, .ON, .IDENT ['u', 'a', 'r', 't'], .key (.routine .read),
    .IDENT ['g', 'e', 't'], .DEFBRK, .IDENT ['A'], .IS, .IDENT ['t', 't', 'y'], .ON,
    .IDENT ['u', 'a', 'r', 't'], .IDENT ['B'], .IS, .IDENT ['t', 't', 'y'], .ON,
    .IDENT ['u', 'a', 'r', 't'], .key .irq, .INTEGER ['6']]

theorem control_blocks_two :
    ((main (fun _ _ => []) twoTtys).get (by decide)).minorsOf ['t', 't', 'y'] = [0, 1] :=
  ((control_blocks (Option.some_get _).symm).2.2.2 _).1 2 (by decide)

end Xinu.Config
