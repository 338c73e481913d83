import Mathlib.Data.Nat.Find
import XinuCMips.Icache.Device

/-!
# Transparency of the instruction cache

A fetch lowers `cpu_sel` with its address until the state machine is in `st_hit`, and for
as long after that as the CPU is stalled for other reasons; then `cpu_sel` goes up for one
period at least.

* `Fetching.step`        — what a fetch can be in the middle of, and that one period keeps it;
* `Fetching.ready`       — in `st_hit` the word is that of the memory;
* `Fetching.ends`        — the state machine gets to `st_hit`;
* `transparent_iff`      — **every fetch of every sequence gets its word exactly when the
  memory never stops making the cache wait.**

`U_access` waits for the rising edge of `mem_rdy`, while the state machine looks at its
level: an access without a wait is one that the state machine takes for done and the
process has not seen. The state machine then asks again for the same word.
-/

namespace Xinu.Icache

variable {undef : Word} {waits : Nat → Nat} {mem : BitVec 30 → Word} {s t : ICache} {addr : Word}
  {i k n : Nat}

/-- A fetch: how long `cpu_sel` stays up before it, and low after the word is there. -/
structure Fetch where
  addr : Word
  gap : Nat
  stall : Nat

/-- The word of the memory at an address. -/
def wordAt (mem : BitVec 30 → Word) (addr : Word) : Word :=
  mem (wordAddr (tagOf addr) (indexOf addr) (wSelOf addr))

/-- Every valid line holds the words of its block. -/
def Coherent (mem : BitVec 30 → Word) (s : ICache) : Prop :=
  ∀ index, (s.tags index).val = true →
    ∀ wSel, s.data index wSel = mem (wordAddr (s.tags index).tag index wSel)

/-- The first period of a fetch. -/
def ICache.begins (undef : Word) (waits : Nat → Nat) (mem : BitVec 30 → Word) (s : ICache)
    (f : Fetch) : ICache :=
  (s.highs undef waits mem f.addr (f.gap + 1)).step undef waits mem false f.addr

/-- After `n` more periods the state machine is in `st_hit` for the first time. -/
def Hits (undef : Word) (waits : Nat → Nat) (mem : BitVec 30 → Word) (s : ICache) (addr : Word)
    (n : Nat) : Prop :=
  (s.lows undef waits mem addr n).fsm = .stHit ∧
    ∀ m, m < n → (s.lows undef waits mem addr m).fsm ≠ .stHit

/-- **Each fetch of the list gets its word**, and leaves the valid lines as the memory has
them. -/
def Serves (undef : Word) (waits : Nat → Nat) (mem : BitVec 30 → Word) :
    ICache → List Fetch → Prop
  | _, [] => True
  | s, f :: fs =>
      ∃ n, Hits undef waits mem (s.begins undef waits mem f) f.addr n ∧
        (let t := (s.begins undef waits mem f).lows undef waits mem f.addr n
         t.cpuData = wordAt mem f.addr ∧ Coherent mem t ∧
          Serves undef waits mem (t.lows undef waits mem f.addr f.stall) fs)

/-- The memory makes the cache wait again and again. -/
def KeepsWaiting (waits : Nat → Nat) : Prop := ∀ k, ∃ j, k ≤ j ∧ 0 < waits j

-- ---------------------------------------------------------------------------
-- The middle of a fetch
-- ---------------------------------------------------------------------------

/-- `U_access` has the slices of the address. -/
structure Latched (addr : Word) (s : ICache) : Prop where
  tag : s.inpTag = tagOf addr
  index : s.inpIndex = indexOf addr
  wSel : s.inpWSel = wSelOf addr
  sel : s.cpuSel = false

/-- The first `k` words of the fill are in place. -/
def Filled (mem : BitVec 30 → Word) (addr : Word) (s : ICache) (k : Nat) : Prop :=
  ∀ j, j < k → s.blk (s.wdSel j) = mem (wordAddr (tagOf addr) (indexOf addr) (s.wdSel j))

/-- The line of the address is in the cache, and its word on its way to the CPU. -/
structure Ready (mem : BitVec 30 → Word) (addr : Word) (s : ICache) : Prop where
  place : s.place = .cpuSel
  line : s.tags (indexOf addr) = ⟨true, tagOf addr⟩
  data : s.cpuData = wordAt mem addr

/-- The fill goes on, and turn `i` has sent its address. -/
structure Fills (mem : BitVec 30 → Word) (addr : Word) (i : Nat) (s : ICache) : Prop where
  miss : s.miss = true
  blkFilled : s.blkFilled = false
  turn : i < icWordsPerBlock
  memAddr : s.memAddr = wordAddr (tagOf addr) (indexOf addr) (s.wdSel i)

/-- What a fetch can be in the middle of. -/
inductive Stage (mem : BitVec 30 → Word) (addr : Word) (s : ICache) : Prop
  /-- the line was there -/
  | found (hr : Ready mem addr s) (hm : s.miss = false)
      (hfsm : s.fsm = .stIdle ∨ s.fsm = .stCheck ∨ s.fsm = .stHit)
  /-- it was not, and the state machine has not got there yet -/
  | missed (hf : Fills mem addr 0 s) (hp : s.place = .memRdy 0)
      (hfsm : s.fsm = .stIdle ∨ s.fsm = .stCheck) (hw : s.waiting = 0)
  /-- the memory is accessed -/
  | asks (i : Nat) (hf : Fills mem addr i s) (hb : Filled mem addr s i) (hp : s.place = .memRdy i)
      (hfsm : s.fsm = .stStart ∨ s.fsm = .stWaiting) (hn : s.nextWord = false)
  /-- an access is over, and the next one is for turn `i` -/
  | between (i : Nat) (hf : Fills mem addr i s) (hb : Filled mem addr s i)
      (hp : s.place = .memRdy i) (hfsm : s.fsm = .stDone) (hw : s.waiting = 0)
  /-- the word is there, and the state machine has not got there yet -/
  | gets (i : Nat) (hf : Fills mem addr i s) (hb : Filled mem addr s (i + 1))
      (hp : s.place = .nextWord i) (hfsm : s.fsm = .stWaiting) (hn : s.nextWord = false)
      (hw : s.waiting = 0)
  /-- the block is filled -/
  | filled (hr : Ready mem addr s) (hm : s.miss = true) (hb : s.blkFilled = true)
      (hfsm : s.fsm = .stDone ∨ s.fsm = .stHit)

/-- The invariant of a fetch. -/
structure Fetching (mem : BitVec 30 → Word) (addr : Word) (s : ICache) : Prop where
  latched : Latched addr s
  coherent : Coherent mem s
  stage : Stage mem addr s

/-- All four words are in place. -/
theorem Filled.all (h : Filled mem addr s 4) (wSel : BitVec icWordSelBits) :
    s.blk wSel = mem (wordAddr (tagOf addr) (indexOf addr) wSel) := by
  have hturn : ∀ w v : BitVec icWordSelBits, ∃ j < 4, v = w + BitVec.ofNat icWordSelBits j := by
    decide
  obtain ⟨j, hj, rfl⟩ := hturn s.inpWSel wSel
  exact h j hj

-- What a period does, by what `U_access` waits for.

theorem step_at_cpuSel (hp : s.place = .cpuSel) (hs : s.cpuSel = false) :
    s.step undef waits mem false addr = s.edge waits false := by
  unfold ICache.step
  rw [hp, hs]
  rfl

theorem step_at_memRdy (hp : s.place = .memRdy i)
    (h : s.waiting = 0 ∨ (s.edge waits false).waiting ≠ 0) :
    s.step undef waits mem false addr = s.edge waits false := by
  unfold ICache.step
  rw [hp]
  refine if_neg ?_
  simp only [ICache.memRdy, Bool.and_eq_true, Bool.not_eq_true', beq_eq_false_iff_ne, beq_iff_eq]
  rintro ⟨hlow, hhigh⟩
  exact h.elim hlow fun hne => hne hhigh

theorem step_rises (hp : s.place = .memRdy i) (h : s.waiting ≠ 0)
    (h' : (s.edge waits false).waiting = 0) :
    s.step undef waits mem false addr = (s.edge waits false).fill mem i := by
  unfold ICache.step
  rw [hp]
  refine if_pos ?_
  simp only [ICache.memRdy, Bool.and_eq_true, Bool.not_eq_true', beq_eq_false_iff_ne, beq_iff_eq]
  exact ⟨h, h'⟩

theorem step_next (hp : s.place = .nextWord i) (h : s.nextWord = false)
    (h' : (s.edge waits false).nextWord = true) :
    s.step undef waits mem false addr = (s.edge waits false).advance undef i := by
  unfold ICache.step
  rw [hp]
  refine if_pos ?_
  rw [h, h']
  rfl

/-- Where the state machine goes, and the memory with it. -/
theorem edge_to {st : IcState} (h : s.fsm.next s.cpuSel s.miss s.memRdy s.blkFilled = st) :
    (s.edge waits false).fsm = st ∧ (s.edge waits false).nextWord = st.nextWord s.nextWord ∧
      (s.edge waits false).waiting =
        if st.memSel then 0 else if s.fsm.memSel then waits s.refs else s.waiting - 1 := by
  subst h
  refine ⟨rfl, rfl, ?_⟩
  show (if (s.fsm.next s.cpuSel s.miss s.memRdy s.blkFilled).memSel then 0 else _) = _
  by_cases hsel : (s.fsm.next s.cpuSel s.miss s.memRdy s.blkFilled).memSel = true
  · rw [if_pos hsel, if_pos hsel]
  · rw [if_neg hsel, if_neg hsel, Bool.eq_false_iff.mpr hsel, Bool.not_false, Bool.and_true]

/-- Nothing that a fetch has latched or filled changes at the edge. -/
theorem Latched.edge (h : Latched addr s) : Latched addr (s.edge waits false) :=
  ⟨h.tag, h.index, h.wSel, rfl⟩

theorem Fills.edge (h : Fills mem addr i s) : Fills mem addr i (s.edge waits false) :=
  ⟨h.miss, h.blkFilled, h.turn, h.memAddr⟩

theorem Ready.edge (h : Ready mem addr s) : Ready mem addr (s.edge waits false) :=
  ⟨h.place, h.line, h.data⟩

/-- **The end of a fill** leaves the block in the line of the address. -/
theorem Filled.closes (hl : Latched addr s) (hc : Coherent mem s) (hb : Filled mem addr s 4) :
    Ready mem addr (s.advance undef 3) ∧ Coherent mem (s.advance undef 3) := by
  refine ⟨⟨rfl, ?_, ?_⟩, ?_⟩
  · show Function.update s.tags s.inpIndex ⟨true, s.inpTag⟩ (indexOf addr) = _
    rw [hl.index, hl.tag, Function.update_self]
  · show s.blk s.inpWSel = _
    rw [hl.wSel]
    exact hb.all _
  · intro index hval wSel
    show Function.update s.data s.inpIndex s.blk index wSel =
      mem (wordAddr (Function.update s.tags s.inpIndex ⟨true, s.inpTag⟩ index).tag index wSel)
    by_cases hi : index = s.inpIndex
    · subst hi
      rw [Function.update_self, Function.update_self, hb.all, hl.index, hl.tag]
    · rw [Function.update_of_ne hi, Function.update_of_ne hi]
      refine hc index ?_ wSel
      have hval : (Function.update s.tags s.inpIndex ⟨true, s.inpTag⟩ index).val = true := hval
      rwa [Function.update_of_ne hi] at hval

/-- **Turn `i`** puts its word next to those of the turns before. -/
theorem Filled.next (hb : Filled mem addr s i) (hf : Fills mem addr i s) :
    Filled mem addr (s.fill mem i) (i + 1) := by
  intro j hj
  show Function.update s.blk (s.wdSel i) (mem s.memAddr) (s.wdSel j) = _
  by_cases hij : s.wdSel j = s.wdSel i
  · rw [hij, Function.update_self, hf.memAddr]
    exact congrArg (fun w => mem (wordAddr _ _ w)) hij.symm
  · rw [Function.update_of_ne hij]
    exact hb j (by
      have hne : j ≠ i := fun heq => hij (by rw [heq])
      omega)

/-- A period of an access: the word comes, or the memory waits, or the access is over. -/
theorem Fetching.step_asks (h : Fetching mem addr s) (hf : Fills mem addr i s)
    (hb : Filled mem addr s i) (hp : s.place = .memRdy i)
    (hfsm : s.fsm = .stStart ∨ s.fsm = .stWaiting) (hn : s.nextWord = false) :
    Fetching mem addr (s.step undef waits mem false addr) := by
  have hover : s.fsm = .stWaiting → s.waiting = 0 →
      Fetching mem addr (s.step undef waits mem false addr) := by
    intro hfsm hw
    obtain ⟨hto, -, hwait⟩ := @edge_to waits s .stDone (by rw [hfsm, ICache.memRdy, hw]; rfl)
    rw [step_at_memRdy hp (Or.inl hw)]
    exact ⟨h.latched.edge, h.coherent, .between i hf.edge hb hp hto hwait⟩
  have hgoes : s.fsm.next s.cpuSel s.miss s.memRdy s.blkFilled = .stWaiting →
      Fetching mem addr (s.step undef waits mem false addr) := by
    intro hst
    obtain ⟨hto, hnext, -⟩ := @edge_to waits s .stWaiting hst
    have hn' : (s.edge waits false).nextWord = false := by
      rw [hnext]
      exact hn
    by_cases hrise : s.waiting ≠ 0 ∧ (s.edge waits false).waiting = 0
    · -- the edge that `U_access` waits for
      rw [step_rises hp hrise.1 hrise.2]
      have hl : Latched addr (s.edge waits false) := h.latched.edge
      refine ⟨⟨hl.tag, hl.index, hl.wSel, hl.sel⟩, h.coherent,
        .gets i ⟨hf.miss, hf.blkFilled, hf.turn, hf.memAddr⟩ (hb.next hf) rfl hto hn' hrise.2⟩
    · rw [step_at_memRdy hp (by omega)]
      exact ⟨h.latched.edge, h.coherent, .asks i hf.edge hb hp (Or.inr hto) hn'⟩
  rcases hfsm with hfsm | hfsm
  · exact hgoes (by rw [hfsm]; rfl)
  · by_cases hw : s.waiting = 0
    · exact hover hfsm hw
    · exact hgoes (by rw [hfsm, ICache.memRdy, beq_eq_false_iff_ne.mpr hw]; rfl)

/-- **One period of a fetch.** -/
theorem Fetching.step (h : Fetching mem addr s) :
    Fetching mem addr (s.step undef waits mem false addr) := by
  have hsel := h.latched.sel
  cases h.stage with
  | found hr hm hfsm =>
    rw [step_at_cpuSel hr.place hsel]
    refine ⟨h.latched.edge, h.coherent, .found hr.edge hm ?_⟩
    rcases hfsm with hfsm | hfsm | hfsm
    · exact Or.inr (Or.inl (@edge_to waits s .stCheck (by rw [hfsm, hsel]; rfl)).1)
    · exact Or.inr (Or.inr (@edge_to waits s .stHit (by rw [hfsm, hm]; rfl)).1)
    · exact Or.inr (Or.inr (@edge_to waits s .stHit (by rw [hfsm, hsel]; rfl)).1)
  | missed hf hp hfsm hw =>
    rw [step_at_memRdy hp (Or.inl hw)]
    refine ⟨h.latched.edge, h.coherent, ?_⟩
    rcases hfsm with hfsm | hfsm
    · obtain ⟨hto, -, hwait⟩ := @edge_to waits s .stCheck (by rw [hfsm, hsel]; rfl)
      exact .missed hf.edge hp (Or.inr hto) hwait
    · obtain ⟨hto, hnext, -⟩ := @edge_to waits s .stStart (by rw [hfsm, hf.miss]; rfl)
      exact .asks 0 hf.edge nofun hp (Or.inl hto) hnext
  | asks i hf hb hp hfsm hn => exact h.step_asks hf hb hp hfsm hn
  | between i hf hb hp hfsm hw =>
    rw [step_at_memRdy hp (Or.inl hw)]
    obtain ⟨hto, hnext, -⟩ := @edge_to waits s .stStart (by rw [hfsm, hf.blkFilled]; rfl)
    exact ⟨h.latched.edge, h.coherent, .asks i hf.edge hb hp (Or.inl hto) hnext⟩
  | gets i hf hb hp hfsm hn hw =>
    obtain ⟨hto, hnext, hwait⟩ :=
      @edge_to waits s .stDone (by rw [hfsm, ICache.memRdy, hw]; rfl)
    rw [step_next hp hn hnext]
    have hl : Latched addr (s.edge waits false) := h.latched.edge
    by_cases hlast : i + 1 < icWordsPerBlock
    · -- the next word of the block
      have hturn : (s.edge waits false).advance undef i =
          (s.edge waits false).turn undef (i + 1) := if_pos hlast
      rw [hturn]
      refine ⟨⟨hl.tag, hl.index, hl.wSel, hl.sel⟩, h.coherent,
        .between (i + 1) ⟨hf.miss, hf.blkFilled, hlast, ?_⟩ hb rfl hto hwait⟩
      show wordAddr s.inpTag s.inpIndex (s.wdSel (i + 1)) = _
      rw [h.latched.tag, h.latched.index]
      rfl
    · obtain rfl : i = 3 := by
        have h4 := hf.turn
        unfold icWordsPerBlock at h4 hlast
        omega
      obtain ⟨hready, hcoh⟩ := @Filled.closes undef mem _ addr hl h.coherent hb
      exact ⟨⟨hl.tag, hl.index, hl.wSel, hl.sel⟩, hcoh, .filled hready hf.miss rfl (Or.inl hto)⟩
  | filled hr hm hb hfsm =>
    rw [step_at_cpuSel hr.place hsel]
    refine ⟨h.latched.edge, h.coherent, .filled hr.edge hm hb ?_⟩
    rcases hfsm with hfsm | hfsm
    · exact Or.inr (@edge_to waits s .stHit (by rw [hfsm, hb]; rfl)).1
    · exact Or.inr (@edge_to waits s .stHit (by rw [hfsm, hsel]; rfl)).1

theorem Fetching.lows (h : Fetching mem addr s) :
    ∀ n, Fetching mem addr (s.lows undef waits mem addr n)
  | 0 => h
  | n + 1 => (Fetching.lows h n).step

/-- **In `st_hit`** the line is there, and its word. -/
theorem Fetching.ready (h : Fetching mem addr s) (hfsm : s.fsm = .stHit) : Ready mem addr s := by
  cases h.stage with
  | found hr => exact hr
  | missed _ _ hst => rw [hfsm] at hst; nomatch hst
  | asks _ _ _ _ hst => rw [hfsm] at hst; nomatch hst
  | between _ _ _ _ hst => rw [hfsm] at hst; nomatch hst
  | gets _ _ _ _ hst => rw [hfsm] at hst; nomatch hst
  | filled hr => exact hr

-- ---------------------------------------------------------------------------
-- Between two fetches
-- ---------------------------------------------------------------------------

/-- No fetch goes on. -/
structure AtRest (mem : BitVec 30 → Word) (s : ICache) : Prop where
  place : s.place = .cpuSel
  coherent : Coherent mem s
  fsm : s.fsm = .stIdle ∨ s.fsm = .stHit

theorem atRest_reset : AtRest mem (reset undef) :=
  ⟨rfl, nofun, Or.inl rfl⟩

theorem Fetching.atRest (h : Fetching mem addr s) (hfsm : s.fsm = .stHit) : AtRest mem s :=
  ⟨(h.ready hfsm).place, h.coherent, Or.inr hfsm⟩

/-- A period in which the CPU asks for nothing is an edge. -/
theorem AtRest.step_high (h : AtRest mem s) :
    s.step undef waits mem true addr = s.edge waits true := by
  unfold ICache.step
  rw [h.place]
  exact if_neg (by rw [Bool.not_true, Bool.and_false]; exact Bool.false_ne_true)

/-- At rest the state machine stays in `st_hit` or leaves it. -/
theorem AtRest.edge (h : AtRest mem s) (sel : Bool) (hsel : s.fsm = .stIdle → s.cpuSel = true) :
    AtRest mem (s.edge waits sel) := by
  refine ⟨h.place, h.coherent, ?_⟩
  have hto : (s.edge waits sel).fsm = s.fsm.next s.cpuSel s.miss s.memRdy s.blkFilled := rfl
  rw [hto]
  rcases h.fsm with hfsm | hfsm
  · rw [hfsm, hsel hfsm]
    exact Or.inl rfl
  · rw [hfsm]
    cases s.cpuSel
    · exact Or.inr rfl
    · exact Or.inl rfl

/-- The CPU asks for nothing. -/
structure Quiet (mem : BitVec 30 → Word) (s : ICache) : Prop where
  rest : AtRest mem s
  sel : s.cpuSel = true

theorem AtRest.highs (h : AtRest mem s) (hsel : s.fsm = .stIdle → s.cpuSel = true) :
    ∀ n, Quiet mem (s.highs undef waits mem addr (n + 1))
  | 0 => by
      have hstep : s.step undef waits mem true addr = _ := h.step_high
      show Quiet mem (s.step undef waits mem true addr)
      rw [hstep]
      exact ⟨h.edge true hsel, rfl⟩
  | n + 1 => by
      have hq := AtRest.highs h hsel n
      show Quiet mem ((s.highs undef waits mem addr (n + 1)).step undef waits mem true addr)
      rw [hq.rest.step_high]
      exact ⟨hq.rest.edge true fun _ => hq.sel, rfl⟩

/-- The first period of a fetch: `U_access` looks the line up, and the state machine is in
`st_idle`. -/
theorem Quiet.step_low (h : Quiet mem s) :
    s.step undef waits mem false addr = (s.edge waits false).lookup undef addr ∧
      (s.edge waits false).fsm = .stIdle ∧ (s.edge waits false).waiting = 0 := by
  have hst : s.fsm.next s.cpuSel s.miss s.memRdy s.blkFilled = .stIdle := by
    rcases h.rest.fsm with hfsm | hfsm
    · rw [hfsm, h.sel]
      rfl
    · rw [hfsm, h.sel]
      rfl
  obtain ⟨hto, -, hwait⟩ := @edge_to waits s .stIdle hst
  refine ⟨?_, hto, hwait⟩
  unfold ICache.step
  rw [h.rest.place]
  refine if_pos ?_
  rw [h.sel]
  rfl

/-- The line of an address is not in the cache. -/
def Absent (addr : Word) (s : ICache) : Prop := s.tags (indexOf addr) ≠ ⟨true, tagOf addr⟩

theorem lookup_found (h : ¬ Absent addr s) :
    s.lookup undef addr =
      { s with
        inpTag := tagOf addr, inpIndex := indexOf addr, inpWSel := wSelOf addr, miss := false,
        blk := s.data (indexOf addr), cpuData := s.data (indexOf addr) (wSelOf addr) } := by
  have hline : s.tags (indexOf addr) = ⟨true, tagOf addr⟩ := not_not.mp h
  unfold ICache.lookup
  refine if_pos ?_
  show ((s.tags (indexOf addr)).val && (s.tags (indexOf addr)).tag == tagOf addr) = true
  rw [hline, Bool.true_and, beq_self_eq_true]

theorem lookup_missed (h : Absent addr s) :
    s.lookup undef addr =
      ({ s with
          inpTag := tagOf addr, inpIndex := indexOf addr, inpWSel := wSelOf addr, miss := true,
          blkFilled := false } : ICache).turn undef 0 := by
  unfold ICache.lookup
  refine if_neg fun hfound => h ?_
  have hfound : ((s.tags (indexOf addr)).val && (s.tags (indexOf addr)).tag == tagOf addr) = true :=
    hfound
  obtain ⟨hval, htag⟩ := Bool.and_eq_true_iff.mp hfound
  calc s.tags (indexOf addr)
      = ⟨(s.tags (indexOf addr)).val, (s.tags (indexOf addr)).tag⟩ := rfl
    _ = ⟨true, tagOf addr⟩ := by rw [hval, beq_iff_eq.mp htag]

/-- **A fetch begins** in the invariant. -/
theorem AtRest.begins (h : AtRest mem s) (hsel : s.fsm = .stIdle → s.cpuSel = true) (f : Fetch) :
    Fetching mem f.addr (s.begins undef waits mem f) := by
  have hq : Quiet mem (s.highs undef waits mem f.addr (f.gap + 1)) := h.highs hsel f.gap
  unfold ICache.begins
  generalize s.highs undef waits mem f.addr (f.gap + 1) = t at hq
  obtain ⟨hstep, hto, hwait⟩ := @Quiet.step_low undef waits mem t f.addr hq
  rw [hstep]
  by_cases hline : Absent f.addr (t.edge waits false)
  · rw [lookup_missed hline]
    exact ⟨⟨rfl, rfl, rfl, rfl⟩, hq.rest.coherent,
      .missed ⟨rfl, rfl, by decide, rfl⟩ rfl (Or.inl hto) hwait⟩
  · rw [lookup_found hline]
    have hline : t.tags (indexOf f.addr) = ⟨true, tagOf f.addr⟩ := not_not.mp hline
    refine ⟨⟨rfl, rfl, rfl, rfl⟩, hq.rest.coherent,
      .found ⟨hq.rest.place, hline, ?_⟩ rfl (Or.inl hto)⟩
    have hword := hq.rest.coherent (indexOf f.addr) (by rw [hline]) (wSelOf f.addr)
    rw [hline] at hword
    exact hword

-- ---------------------------------------------------------------------------
-- The state machine gets there
-- ---------------------------------------------------------------------------

/-- In some number of periods the fetch is in such a state. -/
def Comes (undef : Word) (waits : Nat → Nat) (mem : BitVec 30 → Word) (addr : Word) (s : ICache)
    (P : ICache → Prop) : Prop :=
  ∃ n, P (s.lows undef waits mem addr n)

variable {P Q : ICache → Prop}

theorem Comes.here (h : P s) : Comes undef waits mem addr s P := ⟨0, h⟩

theorem lows_add (s : ICache) (m n : Nat) :
    s.lows undef waits mem addr (m + n) =
      (s.lows undef waits mem addr m).lows undef waits mem addr n := by
  induction n with
  | zero => rfl
  | succ n ih => exact congrArg (fun t : ICache => t.step undef waits mem false addr) ih

theorem Comes.trans (h : Comes undef waits mem addr s P)
    (hnext : ∀ t, P t → Comes undef waits mem addr t Q) : Comes undef waits mem addr s Q := by
  obtain ⟨m, hm⟩ := h
  obtain ⟨n, hn⟩ := hnext _ hm
  exact ⟨m + n, by rwa [lows_add]⟩

theorem Comes.after (h : Comes undef waits mem addr (s.step undef waits mem false addr) P) :
    Comes undef waits mem addr s P :=
  Comes.trans (P := fun t => t = s.step undef waits mem false addr) ⟨1, rfl⟩ fun t ht => by
    rw [ht]
    exact h

/-- In the fetch the state machine is in `st`, and `U_access` at `place`. -/
structure At (mem : BitVec 30 → Word) (addr : Word) (place : Place) (st : IcState)
    (s : ICache) : Prop where
  fetching : Fetching mem addr s
  place : s.place = place
  fsm : s.fsm = st

/-- What a fill has made up its mind about while it asks. -/
theorem Fetching.fills (h : Fetching mem addr s) (hp : s.place = .memRdy i) :
    Fills mem addr i s := by
  cases h.stage with
  | found hr => exact nomatch hp.symm.trans hr.place
  | missed hf hp' =>
    obtain rfl : i = 0 := Place.memRdy.inj (hp.symm.trans hp')
    exact hf
  | asks k hf _ hp' =>
    obtain rfl : i = k := Place.memRdy.inj (hp.symm.trans hp')
    exact hf
  | between k hf _ hp' =>
    obtain rfl : i = k := Place.memRdy.inj (hp.symm.trans hp')
    exact hf
  | gets k _ _ hp' => exact nomatch hp.symm.trans hp'
  | filled hr => exact nomatch hp.symm.trans hr.place

/-- A period of a wait. -/
theorem edge_waits {w : Nat} (hfsm : s.fsm = .stStart ∨ s.fsm = .stWaiting)
    (hw : s.waiting = w + 1) :
    (s.edge waits false).fsm = .stWaiting ∧ (s.edge waits false).waiting = w := by
  have hst : s.fsm.next s.cpuSel s.miss s.memRdy s.blkFilled = .stWaiting := by
    rcases hfsm with hfsm | hfsm
    · rw [hfsm]
      rfl
    · rw [hfsm, ICache.memRdy, hw]
      rfl
  obtain ⟨hto, -, hwait⟩ := @edge_to waits s .stWaiting hst
  have hlow : s.fsm.memSel = false := by
    rcases hfsm with hfsm | hfsm <;> rw [hfsm] <;> rfl
  refine ⟨hto, ?_⟩
  rw [hwait, hlow, hw]
  rfl

/-- **A wait ends**, and `U_access` sees it. -/
theorem Fetching.word {w : Nat} : ∀ {s : ICache}, Fetching mem addr s → s.place = .memRdy i →
    s.fsm = .stStart ∨ s.fsm = .stWaiting → s.waiting = w + 1 →
    Comes undef waits mem addr s (At mem addr (.nextWord i) .stWaiting) := by
  induction w with
  | zero =>
    intro s h hp hfsm hw
    obtain ⟨hto, hzero⟩ := @edge_waits waits s 0 hfsm hw
    have hstep : s.step undef waits mem false addr = _ := step_rises hp (by omega) hzero
    refine Comes.after (Comes.here ⟨h.step, ?_, ?_⟩)
    · rw [hstep]
      rfl
    · rw [hstep]
      exact hto
  | succ w ih =>
    intro s h hp hfsm hw
    obtain ⟨hto, hless⟩ := @edge_waits waits s (w + 1) hfsm hw
    have hstep : s.step undef waits mem false addr = _ := step_at_memRdy hp (Or.inr (by omega))
    refine Comes.after (ih h.step ?_ ?_ ?_)
    · rw [hstep]
      exact hp
    · rw [hstep]
      exact Or.inr hto
    · rw [hstep]
      exact hless

/-- How many accesses there have been after an edge. -/
theorem edge_refs {st : IcState} (h : s.fsm.next s.cpuSel s.miss s.memRdy s.blkFilled = st) :
    (s.edge waits false).refs = if s.fsm.memSel && !st.memSel then s.refs + 1 else s.refs := by
  subst h
  rfl

/-- A period of a fill in which the memory is ready all the time. -/
theorem At.passes {st st' : IcState} (h : At mem addr (.memRdy i) st s) (hw : s.waiting = 0)
    (hst : s.fsm.next s.cpuSel s.miss s.memRdy s.blkFilled = st') :
    At mem addr (.memRdy i) st' (s.step undef waits mem false addr) ∧
      (s.step undef waits mem false addr).waiting =
        (if st'.memSel then 0 else if st.memSel then waits s.refs else 0) ∧
      (s.step undef waits mem false addr).refs =
        if st.memSel && !st'.memSel then s.refs + 1 else s.refs := by
  have hnext : Fetching mem addr (s.step undef waits mem false addr) := h.fetching.step
  have hstep : s.step undef waits mem false addr = _ := step_at_memRdy h.place (Or.inl hw)
  obtain ⟨hto, -, hwait⟩ := @edge_to waits s st' hst
  have hrefs := @edge_refs waits s st' hst
  rw [h.fsm, hw] at hwait
  rw [h.fsm] at hrefs
  refine ⟨⟨hnext, ?_, ?_⟩, ?_, ?_⟩
  · rw [hstep]
    exact h.place
  · rw [hstep]
    exact hto
  · rw [hstep]
    exact hwait
  · rw [hstep]
    exact hrefs

/-- **An access without a wait** is asked for again. -/
theorem At.again (h : At mem addr (.memRdy i) .stStart s) (hw : s.waiting = 0) :
    Comes undef waits mem addr s fun t =>
      At mem addr (.memRdy i) .stStart t ∧ t.refs = s.refs + 1 ∧ t.waiting = waits s.refs := by
  obtain ⟨h₁, hwait₁, hrefs₁⟩ :=
    @At.passes undef waits mem s addr i _ .stWaiting h hw (by rw [h.fsm]; rfl)
  refine Comes.after ?_
  generalize s.step undef waits mem false addr = s₁ at h₁ hwait₁ hrefs₁
  -- the state machine takes the access for done
  obtain ⟨h₂, hwait₂, hrefs₂⟩ :=
    @At.passes undef waits mem s₁ addr i _ .stDone h₁ hwait₁
      (by rw [h₁.fsm, ICache.memRdy, hwait₁]; rfl)
  refine Comes.after ?_
  generalize s₁.step undef waits mem false addr = s₂ at h₂ hwait₂ hrefs₂
  obtain ⟨h₃, hwait₃, hrefs₃⟩ :=
    @At.passes undef waits mem s₂ addr i _ .stStart h₂ hwait₂
      (by rw [h₂.fsm, (h₂.fetching.fills h₂.place).blkFilled]; rfl)
  refine Comes.after (Comes.here ⟨h₃, ?_, ?_⟩)
  · exact hrefs₃.trans (congrArg (· + 1) (hrefs₂.trans hrefs₁))
  · exact hwait₃.trans (congrArg waits (hrefs₂.trans hrefs₁))

/-- **Turn `i` gets its word** if the memory makes one of the next accesses wait. -/
theorem At.turn {d : Nat} : ∀ {s : ICache}, At mem addr (.memRdy i) .stStart s →
    0 < waits (s.refs + d) →
    Comes undef waits mem addr s (At mem addr (.nextWord i) .stWaiting) := by
  have hwaited : ∀ {s : ICache}, At mem addr (.memRdy i) .stStart s → s.waiting ≠ 0 →
      Comes undef waits mem addr s (At mem addr (.nextWord i) .stWaiting) := by
    intro s h hw
    obtain ⟨w, hw⟩ := Nat.exists_eq_succ_of_ne_zero hw
    exact h.fetching.word h.place (Or.inl h.fsm) hw
  induction d with
  | zero =>
    intro s h hlong
    by_cases hw : s.waiting = 0
    · refine (h.again hw).trans ?_
      rintro t ⟨ht, -, hwait⟩
      have hlong : 0 < waits s.refs := hlong
      exact hwaited ht (by omega)
    · exact hwaited h hw
  | succ d ih =>
    intro s h hlong
    by_cases hw : s.waiting = 0
    · refine (h.again hw).trans ?_
      rintro t ⟨ht, hrefs, -⟩
      refine ih ht ?_
      rwa [hrefs, Nat.add_right_comm, Nat.add_assoc]
    · exact hwaited h hw

/-- What a fill has when `U_access` waits for the state machine. -/
theorem Fetching.got (h : Fetching mem addr s) (hp : s.place = .nextWord i) :
    i < icWordsPerBlock ∧ s.nextWord = false ∧ s.waiting = 0 := by
  cases h.stage with
  | found hr => exact nomatch hp.symm.trans hr.place
  | missed _ hp' => exact nomatch hp.symm.trans hp'
  | asks _ _ _ hp' => exact nomatch hp.symm.trans hp'
  | between _ _ _ hp' => exact nomatch hp.symm.trans hp'
  | gets k hf _ hp' _ hn hw =>
    obtain rfl : i = k := Place.nextWord.inj (hp.symm.trans hp')
    exact ⟨hf.turn, hn, hw⟩
  | filled hr => exact nomatch hp.symm.trans hr.place

/-- **The end of a turn** is the next turn or the end of the fill. -/
theorem At.closes (h : At mem addr (.nextWord i) .stWaiting s) :
    (i + 1 < icWordsPerBlock ∧
        At mem addr (.memRdy (i + 1)) .stDone (s.step undef waits mem false addr) ∧
        (s.step undef waits mem false addr).waiting = 0) ∨
      (i + 1 = icWordsPerBlock ∧
        At mem addr .cpuSel .stDone (s.step undef waits mem false addr) ∧
        (s.step undef waits mem false addr).blkFilled = true) := by
  obtain ⟨hi, hn, hw⟩ := h.fetching.got h.place
  have hnext : Fetching mem addr (s.step undef waits mem false addr) := h.fetching.step
  obtain ⟨hto, hrise, hwait⟩ := @edge_to waits s .stDone (by rw [h.fsm, ICache.memRdy, hw]; rfl)
  have hstep : s.step undef waits mem false addr = _ := step_next h.place hn hrise
  rw [hstep] at hnext ⊢
  by_cases hlast : i + 1 < icWordsPerBlock
  · have hturn : (s.edge waits false).advance undef i =
        (s.edge waits false).turn undef (i + 1) := if_pos hlast
    rw [hturn] at hnext ⊢
    exact Or.inl ⟨hlast, ⟨hnext, rfl, hto⟩, hwait⟩
  · have hlast : i + 1 = icWordsPerBlock := by omega
    obtain rfl : i = 3 := Nat.succ.inj hlast
    exact Or.inr ⟨rfl, ⟨hnext, rfl, hto⟩, rfl⟩

/-- A turn that has sent its address gets its word. -/
theorem At.starts (hk : KeepsWaiting waits) {st : IcState} (h : At mem addr (.memRdy i) st s)
    (hw : s.waiting = 0) (hst : s.fsm.next s.cpuSel s.miss s.memRdy s.blkFilled = .stStart) :
    Comes undef waits mem addr s (At mem addr (.nextWord i) .stWaiting) := by
  obtain ⟨hstart, -, -⟩ := @At.passes undef waits mem s addr i st .stStart h hw hst
  obtain ⟨j, hj, hlong⟩ := hk (s.step undef waits mem false addr).refs
  obtain ⟨d, rfl⟩ := Nat.exists_eq_add_of_le hj
  exact Comes.after (hstart.turn hlong)

/-- **The rest of a fill**, by how many turns it still has. -/
theorem At.fills (hk : KeepsWaiting waits) {m : Nat} : ∀ {i : Nat} {s : ICache},
    At mem addr (.nextWord i) .stWaiting s → i + m + 1 = icWordsPerBlock →
    Comes undef waits mem addr s fun t => t.fsm = .stHit := by
  induction m with
  | zero =>
    intro i s h hm
    rcases @At.closes undef waits mem s addr i h with ⟨hi, -⟩ | ⟨-, hdone, hb⟩
    · omega
    · refine Comes.after (Comes.after (Comes.here ?_))
      rw [step_at_cpuSel hdone.place hdone.fetching.latched.sel]
      exact (edge_to (by rw [hdone.fsm, hb]; rfl)).1
  | succ m ih =>
    intro i s h hm
    rcases @At.closes undef waits mem s addr i h with ⟨-, hdone, hw⟩ | ⟨hi, -⟩
    · have hb := (hdone.fetching.fills hdone.place).blkFilled
      refine Comes.after ((hdone.starts hk hw (by rw [hdone.fsm, hb]; rfl)).trans fun t ht => ?_)
      exact ih ht (by omega)
    · omega

/-- **Every fetch ends** if the memory keeps waiting. -/
theorem Fetching.ends (hk : KeepsWaiting waits) (h : Fetching mem addr s)
    (hidle : s.fsm = .stIdle) : Comes undef waits mem addr s fun t => t.fsm = .stHit := by
  have hsel := h.latched.sel
  cases h.stage with
  | found hr hm =>
    have hstep : s.step undef waits mem false addr = _ := step_at_cpuSel hr.place hsel
    have hcheck := (@edge_to waits s .stCheck (by rw [hidle, hsel]; rfl)).1
    have hr' : Ready mem addr (s.edge waits false) := hr.edge
    have hm' : (s.edge waits false).miss = false := hm
    have hstep' : (s.edge waits false).step undef waits mem false addr = _ :=
      step_at_cpuSel hr'.place rfl
    refine Comes.after (Comes.after (Comes.here ?_))
    rw [hstep, hstep']
    exact (edge_to (by rw [hcheck, hm']; rfl)).1
  | missed hf hp hfsm hw =>
    obtain ⟨hcheck, hw', -⟩ := @At.passes undef waits mem s addr 0 _ .stCheck ⟨h, hp, hidle⟩ hw
      (by rw [hidle, hsel]; rfl)
    have hm := (hcheck.fetching.fills hcheck.place).miss
    refine Comes.after ((hcheck.starts hk hw' (by rw [hcheck.fsm, hm]; rfl)).trans fun t ht => ?_)
    exact @At.fills undef waits mem addr hk 3 _ _ ht rfl
  | asks _ _ _ _ hst => rw [hidle] at hst; nomatch hst
  | between _ _ _ _ hst => rw [hidle] at hst; nomatch hst
  | gets _ _ _ _ hst => rw [hidle] at hst; nomatch hst
  | filled _ _ _ hst => rw [hidle] at hst; nomatch hst

/-- The first of the periods in which something has come. -/
theorem Comes.hits (h : Comes undef waits mem addr s fun t => t.fsm = .stHit) :
    ∃ n, Hits undef waits mem s addr n := by
  classical
  exact ⟨Nat.find h, Nat.find_spec h, fun m hm => Nat.find_min h hm⟩

/-- In a fetch the state machine is in `st_idle` after the first period. -/
theorem AtRest.begins_idle (h : AtRest mem s) (hsel : s.fsm = .stIdle → s.cpuSel = true)
    (f : Fetch) : (s.begins undef waits mem f).fsm = .stIdle := by
  have hq : Quiet mem (s.highs undef waits mem f.addr (f.gap + 1)) := h.highs hsel f.gap
  unfold ICache.begins
  obtain ⟨hstep, hto, -⟩ :=
    @Quiet.step_low undef waits mem (s.highs undef waits mem f.addr (f.gap + 1)) f.addr hq
  rw [hstep]
  by_cases hline : Absent f.addr ((s.highs undef waits mem f.addr (f.gap + 1)).edge waits false)
  · rw [lookup_missed hline]
    exact hto
  · rw [lookup_found hline]
    exact hto

/-- The state machine stays in `st_hit` as long as the CPU is stalled. -/
theorem Fetching.stays (h : Fetching mem addr s) (hfsm : s.fsm = .stHit) :
    ∀ n, (s.lows undef waits mem addr n).fsm = .stHit
  | 0 => hfsm
  | n + 1 => by
      have hn : Fetching mem addr (s.lows undef waits mem addr n) := h.lows n
      have hstay := Fetching.stays h hfsm n
      show ((s.lows undef waits mem addr n).step undef waits mem false addr).fsm = _
      rw [step_at_cpuSel (hn.ready hstay).place hn.latched.sel]
      exact (edge_to (by rw [hstay, hn.latched.sel]; rfl)).1

/-- **Every sequence of fetches is served** if the memory keeps waiting. -/
theorem serves_of_keepsWaiting (hk : KeepsWaiting waits) (fs : List Fetch) :
    ∀ {s : ICache}, AtRest mem s → (s.fsm = .stIdle → s.cpuSel = true) →
      Serves undef waits mem s fs := by
  induction fs with
  | nil => exact fun _ _ => trivial
  | cons f fs ih =>
    intro s h hsel
    have hbegin : Fetching mem f.addr (s.begins undef waits mem f) := h.begins hsel f
    obtain ⟨n, hn⟩ :=
      (@Fetching.ends undef waits mem _ f.addr hk hbegin (h.begins_idle hsel f)).hits
    have hthen : Fetching mem f.addr ((s.begins undef waits mem f).lows undef waits mem f.addr n) :=
      hbegin.lows n
    refine ⟨n, hn, (hthen.ready hn.1).data, hthen.coherent, ?_⟩
    have hstay := @Fetching.stays undef waits mem _ f.addr hthen hn.1 f.stall
    refine ih ((hthen.lows f.stall).atRest hstay) fun hidle => ?_
    rw [hstay] at hidle
    nomatch hidle

-- ---------------------------------------------------------------------------
-- A memory that stops waiting
-- ---------------------------------------------------------------------------

/-- A period may begin an access, and does nothing else to the count. -/
theorem step_refs {sel : Bool} :
    (s.step undef waits mem sel addr).refs = (s.edge waits sel).refs := by
  unfold ICache.step
  cases s.place with
  | cpuSel =>
    show (ite _ (ICache.lookup _ _ _) (s.edge waits sel)).refs = _
    split
    · by_cases hline : Absent addr (s.edge waits sel)
      · rw [lookup_missed hline]
        rfl
      · rw [lookup_found hline]
    · rfl
  | memRdy i =>
    show (ite _ (ICache.fill _ _ _) (s.edge waits sel)).refs = _
    split <;> rfl
  | nextWord i =>
    show (ite _ (ICache.advance _ _ _) (s.edge waits sel)).refs = _
    split
    · unfold ICache.advance
      split <;> rfl
    · rfl

theorem refs_le_step {sel : Bool} : s.refs ≤ (s.step undef waits mem sel addr).refs := by
  rw [step_refs]
  show s.refs ≤ if _ then s.refs + 1 else s.refs
  split
  · exact Nat.le_succ _
  · exact Nat.le_refl _

/-- At rest nothing happens to the lines. -/
theorem AtRest.highs_keep (h : AtRest mem s) (hsel : s.fsm = .stIdle → s.cpuSel = true) :
    ∀ n, (s.highs undef waits mem addr (n + 1)).tags = s.tags ∧
      s.refs ≤ (s.highs undef waits mem addr (n + 1)).refs
  | 0 => by
      have hstep : (s.step undef waits mem true addr).tags = (s.edge waits true).tags :=
        congrArg ICache.tags h.step_high
      exact ⟨hstep, refs_le_step⟩
  | n + 1 => by
      have hq : Quiet mem (s.highs undef waits mem addr (n + 1)) := h.highs hsel n
      obtain ⟨htags, hrefs⟩ := AtRest.highs_keep h hsel n
      have hstep : (s.highs undef waits mem addr (n + 1)).step undef waits mem true addr = _ :=
        hq.rest.step_high
      exact ⟨(congrArg ICache.tags hstep).trans htags, Nat.le_trans hrefs refs_le_step⟩

/-- **A fetch that misses** begins with `U_access` waiting for an edge of `mem_rdy`. -/
theorem AtRest.begins_missed (h : AtRest mem s) (hsel : s.fsm = .stIdle → s.cpuSel = true)
    {f : Fetch} (habs : Absent f.addr s) :
    (s.begins undef waits mem f).place = .memRdy 0 ∧ (s.begins undef waits mem f).miss = true ∧
      (s.begins undef waits mem f).blkFilled = false ∧
      (s.begins undef waits mem f).waiting = 0 ∧ s.refs ≤ (s.begins undef waits mem f).refs := by
  have hq : Quiet mem (s.highs undef waits mem f.addr (f.gap + 1)) := h.highs hsel f.gap
  obtain ⟨htags, hrefs⟩ := @AtRest.highs_keep undef waits mem s f.addr h hsel f.gap
  have hrefs' := Nat.le_trans hrefs (@refs_le_step undef waits mem _ f.addr false)
  unfold ICache.begins
  generalize s.highs undef waits mem f.addr (f.gap + 1) = t at hq htags hrefs'
  obtain ⟨hstep, -, hwait⟩ := @Quiet.step_low undef waits mem t f.addr hq
  have hline : Absent f.addr (t.edge waits false) := by
    show t.tags _ ≠ _
    rw [htags]
    exact habs
  refine ⟨?_, ?_, ?_, ?_, hrefs'⟩ <;> rw [hstep, lookup_missed hline]
  · rfl
  · rfl
  · rfl
  · exact hwait

/-- `U_access` waits for an edge that does not come. -/
structure Stuck (waits : Nat → Nat) (s : ICache) : Prop where
  place : ∃ i, s.place = .memRdy i
  miss : s.miss = true
  blkFilled : s.blkFilled = false
  waiting : s.waiting = 0
  quick : ∀ j, s.refs ≤ j → waits j = 0
  fsm : s.fsm ≠ .stHit

theorem Stuck.step (h : Stuck waits s) : Stuck waits (s.step undef waits mem false addr) := by
  obtain ⟨i, hp⟩ := h.place
  have hle : s.refs ≤ (s.step undef waits mem false addr).refs := refs_le_step
  have hstep : s.step undef waits mem false addr = _ := step_at_memRdy hp (Or.inl h.waiting)
  rw [hstep] at hle ⊢
  refine ⟨⟨i, hp⟩, h.miss, h.blkFilled, ?_, fun j hj => h.quick j (Nat.le_trans hle hj), ?_⟩
  · obtain ⟨-, -, hwait⟩ := @edge_to waits s _ rfl
    rw [hwait, h.quick s.refs (Nat.le_refl _), h.waiting]
    split
    · rfl
    · split <;> rfl
  · have hto : (s.edge waits false).fsm = s.fsm.next s.cpuSel s.miss s.memRdy s.blkFilled := rfl
    rw [hto, h.miss, h.blkFilled, ICache.memRdy, h.waiting]
    have hne := h.fsm
    cases hst : s.fsm with
    | stIdle => cases s.cpuSel <;> exact nofun
    | stHit => exact absurd hst hne
    | stCheck => exact nofun
    | stStart => exact nofun
    | stWaiting => exact nofun
    | stDone => exact nofun

theorem Stuck.lows (h : Stuck waits s) :
    ∀ n, Stuck waits (s.lows undef waits mem addr n)
  | 0 => h
  | n + 1 => (Stuck.lows h n).step

/-- A fetch that misses has its access still before it, or has had it. -/
def Pays (r : Nat) (s : ICache) : Prop :=
  ((s.fsm = .stIdle ∨ s.fsm = .stCheck) ∧ s.miss = true ∧ r ≤ s.refs) ∨ r < s.refs

theorem Fetching.pays {r : Nat} (h : Fetching mem addr s) (hr : Pays r s) :
    Pays r (s.step undef waits mem false addr) := by
  have hle : s.refs ≤ (s.step undef waits mem false addr).refs := refs_le_step
  rcases hr with ⟨hfsm, hm, hr⟩ | hr
  · cases h.stage with
    | found _ hm' =>
      rw [hm] at hm'
      nomatch hm'
    | missed hf hp _ hw =>
      rcases hfsm with hfsm | hfsm
      · obtain ⟨hat, -, -⟩ := @At.passes undef waits mem s addr 0 _ .stCheck ⟨h, hp, hfsm⟩ hw
          (by rw [hfsm, h.latched.sel]; rfl)
        exact Or.inl ⟨Or.inr hat.fsm, (hat.fetching.fills hat.place).miss, Nat.le_trans hr hle⟩
      · obtain ⟨-, -, hrefs⟩ := @At.passes undef waits mem s addr 0 _ .stStart ⟨h, hp, hfsm⟩ hw
          (by rw [hfsm, hf.miss]; rfl)
        exact Or.inr (hrefs ▸ Nat.lt_succ_of_le hr)
    | asks _ _ _ _ hst => rcases hfsm with hfsm | hfsm <;> rw [hfsm] at hst <;> nomatch hst
    | between _ _ _ _ hst => rcases hfsm with hfsm | hfsm <;> rw [hfsm] at hst <;> nomatch hst
    | gets _ _ _ _ hst => rcases hfsm with hfsm | hfsm <;> rw [hfsm] at hst <;> nomatch hst
    | filled _ _ _ hst => rcases hfsm with hfsm | hfsm <;> rw [hfsm] at hst <;> nomatch hst
  · exact Or.inr (Nat.lt_of_lt_of_le hr hle)

theorem Fetching.pays_lows {r : Nat} (h : Fetching mem addr s) (hr : Pays r s) :
    ∀ n, Pays r (s.lows undef waits mem addr n)
  | 0 => hr
  | n + 1 => (h.lows n).pays (Fetching.pays_lows h hr n)

/-- Two addresses whose blocks have one line. -/
def conflict (b : Bool) : Word := if b then 1024 else 0

/-- Fetches from the one and the other in turn. -/
def turns : Bool → Nat → List Fetch
  | _, 0 => []
  | b, n + 1 => ⟨conflict b, 0, 0⟩ :: turns (!b) n

/-- The line holds one of the two blocks. -/
theorem Ready.absent {b : Bool} (h : Ready mem (conflict b) s) : Absent (conflict (!b)) s := by
  intro hline
  have hsame : indexOf (conflict (!b)) = indexOf (conflict b) := by cases b <;> decide
  have hother : tagOf (conflict b) ≠ tagOf (conflict (!b)) := by cases b <;> decide
  rw [hsame, h.line] at hline
  exact hother (IcTag.mk.inj hline).2

/-- **A memory that stops waiting** is found out by fetches that miss. -/
theorem not_serves_turns {d : Nat} : ∀ {s : ICache} {b : Bool}, AtRest mem s →
    (s.fsm = .stIdle → s.cpuSel = true) → Absent (conflict b) s →
    (∀ j, s.refs + d ≤ j → waits j = 0) → ¬ Serves undef waits mem s (turns b (d + 1)) := by
  induction d with
  | zero =>
    intro s b h hsel habs hquick hserves
    obtain ⟨n, hn, -⟩ := hserves
    obtain ⟨hp, hm, hb, hw, hrefs⟩ :=
      @AtRest.begins_missed undef waits mem s h hsel ⟨conflict b, 0, 0⟩ habs
    have hidle := @AtRest.begins_idle undef waits mem s h hsel ⟨conflict b, 0, 0⟩
    have hstuck : Stuck waits (s.begins undef waits mem ⟨conflict b, 0, 0⟩) :=
      ⟨⟨0, hp⟩, hm, hb, hw, fun j hj => hquick j (Nat.le_trans hrefs hj), by
        rw [hidle]
        exact nofun⟩
    exact (hstuck.lows n).fsm hn.1
  | succ d ih =>
    intro s b h hsel habs hquick hserves
    obtain ⟨n, hn, -, -, hrest⟩ := hserves
    obtain ⟨-, hm, -, -, hrefs⟩ :=
      @AtRest.begins_missed undef waits mem s h hsel ⟨conflict b, 0, 0⟩ habs
    have hidle := @AtRest.begins_idle undef waits mem s h hsel ⟨conflict b, 0, 0⟩
    have hbegin : Fetching mem (conflict b) (s.begins undef waits mem ⟨conflict b, 0, 0⟩) :=
      h.begins hsel ⟨conflict b, 0, 0⟩
    have hpays := @Fetching.pays_lows undef waits mem _ (conflict b) s.refs hbegin
      (Or.inl ⟨Or.inl hidle, hm, hrefs⟩) n
    have hthen := @Fetching.lows undef waits mem _ (conflict b) hbegin n
    have hfsm := hn.1
    generalize (s.begins undef waits mem ⟨conflict b, 0, 0⟩).lows undef waits mem (conflict b) n = t
      at *
    have hmore : s.refs < t.refs := by
      rcases hpays with ⟨hst, -⟩ | hmore
      · rcases hst with hst | hst <;> rw [hfsm] at hst <;> nomatch hst
      · exact hmore
    refine ih (hthen.atRest hfsm) ?_ (hthen.ready hfsm).absent (fun j hj => hquick j (by omega))
      hrest
    intro hst
    rw [hfsm] at hst
    nomatch hst

-- ---------------------------------------------------------------------------
-- Transparency
-- ---------------------------------------------------------------------------

/-- **The instruction cache is transparent exactly for a memory that never stops making it
wait.** -/
theorem transparent_iff (undef : Word) (waits : Nat → Nat) (mem : BitVec 30 → Word) :
    (∀ fs, Serves undef waits mem (reset undef) fs) ↔ KeepsWaiting waits := by
  constructor
  · intro h k
    by_contra hno
    push Not at hno
    refine not_serves_turns (b := false) (d := k) atRest_reset (fun _ => rfl) ?_ ?_ (h _)
    · intro hline
      exact Bool.false_ne_true (congrArg IcTag.val hline)
    · intro j hj
      exact Nat.eq_zero_of_not_pos (hno j (Nat.le_trans (Nat.le_add_left _ _) hj)).not_gt
  · intro hk fs
    exact serves_of_keepsWaiting hk fs atRest_reset fun _ => rfl

/-- A memory without wait states never serves the first fetch. -/
theorem not_transparent :
    ¬ ∀ (undef : Word) (waits : Nat → Nat) (mem : BitVec 30 → Word) (fs : List Fetch),
        Serves undef waits mem (reset undef) fs := by
  intro h
  have hserves := h 0 (fun _ => 0) (fun _ => 0) [⟨0, 0, 0⟩]
  refine not_serves_turns (b := false) (d := 0) atRest_reset (fun _ => rfl) ?_
    (fun _ _ => rfl) hserves
  intro hline
  exact Bool.false_ne_true (congrArg IcTag.val hline)

end Xinu.Icache
