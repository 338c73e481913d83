import XinuCMips.Lib.DoubleLinks
import XinuCMips.Rds.Device
import Mathlib.Data.Fintype.Card

/-!
# The lists of the remote disk

What the pointers hold, and what the edits and the searches do to it.

* `Holds`                  — the request queue, the cache and the free list;
* `Holds.unlink_request`, `Holds.unlink_cached`, `Holds.enqueue`, `Holds.cache`,
  `Holds.free`             — the edits;
* `Holds.cached`, `Holds.oldest`, `Holds.requested`, `Holds.recent` — the searches;
* `Holds.bufalloc`         — where `rdsbufalloc` gets its buffer from.
-/

namespace Xinu.Rds

open DoubleLinks Thread

/-- The nodes of a doubly linked list, with its head and tail. -/
def between (head tail : Node) (l : List Bufid) : List Node := head :: (l.map Node.buf ++ [tail])

/-- **The lists that the pointers hold**: `q` in the request queue, `c` in the
cache, `f` free, no buffer in two places. -/
structure Holds (p : Ptrs) (q c f : List Bufid) : Prop where
  requests : Links p.rdNext p.rdPrev (between .rhead .rtail q)
  cache : Links p.rdNext p.rdPrev (between .chead .ctail c)
  free : Threaded p.rdNext (f.map Node.buf ++ [.null])
  head : p.rdFree = (f.map Node.buf ++ [Node.null]).headD .null
  nodup : (q ++ c ++ f).Nodup

/-- Two memories that agree on the links of a node. -/
def Agree (p p' : Ptrs) (n : Node) : Prop := p'.rdNext n = p.rdNext n ∧ p'.rdPrev n = p.rdPrev n

variable {p p' : Ptrs} {q c f a b : List Bufid} {i : Bufid} {head tail : Node}

/-! ## Frames -/

theorem mem_between {l : List Bufid} {n : Node} :
    n ∈ between head tail l ↔ n = head ∨ (∃ i ∈ l, Node.buf i = n) ∨ n = tail := by
  unfold between
  simp

theorem between_split :
    between head tail (a ++ i :: b) =
      (head :: a.map Node.buf) ++ .buf i :: (b.map Node.buf ++ [tail]) := by
  simp [between]

theorem between_append :
    between head tail (a ++ b) = (head :: a.map Node.buf) ++ (b.map Node.buf ++ [tail]) := by
  simp [between]

theorem between_nodup {l : List Bufid} (hl : l.Nodup) (hne : head ≠ tail)
    (hh : ∀ i, head ≠ .buf i) (ht : ∀ i, tail ≠ .buf i) : (between head tail l).Nodup := by
  have hmap : (l.map Node.buf).Nodup := hl.map fun i j h => Node.buf.inj h
  unfold between
  rw [List.nodup_cons, List.mem_append, List.nodup_append]
  refine ⟨?_, hmap, List.nodup_singleton _, ?_⟩
  · rintro (h | h)
    · obtain ⟨i, -, hi⟩ := List.mem_map.mp h
      exact hh i hi.symm
    · exact hne (List.mem_singleton.mp h)
  · rintro n hn m hm rfl
    obtain ⟨i, -, hi⟩ := List.mem_map.mp hn
    exact ht i ((List.mem_singleton.mp hm).symm.trans hi.symm)

theorem links_frame {l : List Node} (h : Links p.rdNext p.rdPrev l) (hag : ∀ n ∈ l, Agree p p' n) :
    Links p'.rdNext p'.rdPrev l :=
  h.congr_mem (fun n hn => (hag n hn).1) fun n hn => (hag n hn).2

theorem threaded_frame (h : Threaded p.rdNext (f.map Node.buf ++ [.null]))
    (hag : ∀ i ∈ f, Agree p p' (.buf i)) : Threaded p'.rdNext (f.map Node.buf ++ [.null]) := by
  refine h.congr fun n hn => ?_
  rw [List.dropLast_concat] at hn
  obtain ⟨i, hi, rfl⟩ := List.mem_map.mp hn
  exact (hag i hi).1

/-! ## Edits of one list -/

/-- A buffer leaves a list; other nodes keep their links. -/
theorem unlink_spec {A B : List Node} (h : Links p.rdNext p.rdPrev (A ++ .buf i :: B))
    (nd : (A ++ .buf i :: B).Nodup) (hA : A ≠ []) (hB : B ≠ []) :
    Links (p.unlink i).rdNext (p.unlink i).rdPrev (A ++ B) ∧
      ∀ n, n ∉ A ++ .buf i :: B → Agree p (p.unlink i) n := by
  obtain ⟨pre, x, rfl⟩ := (List.eq_nil_or_concat A).resolve_left hA
  obtain ⟨y, post, rfl⟩ := List.exists_cons_of_ne_nil hB
  rw [List.concat_append] at h nd ⊢
  rw [List.concat_append]
  obtain ⟨-, hprev, hnext, -⟩ := h.around
  unfold Ptrs.unlink Agree
  dsimp only
  rw [hprev, hnext]
  refine ⟨h.unlink nd, fun n hn => ?_⟩
  simp only [List.mem_append, List.mem_cons, not_or] at hn
  exact ⟨Function.update_of_ne hn.2.1 _ _, Function.update_of_ne hn.2.2.2.1 _ _⟩

theorem enqueue_spec {A : List Node} (h : Links p.rdNext p.rdPrev (A ++ [.rtail]))
    (nd : (A ++ [Node.rtail]).Nodup) (hA : A ≠ []) (hi : Node.buf i ∉ A ++ [.rtail]) :
    Links (p.enqueue i).rdNext (p.enqueue i).rdPrev (A ++ [.buf i, .rtail]) ∧
      ∀ n, n ∉ A ++ [.rtail] → n ≠ .buf i → Agree p (p.enqueue i) n := by
  obtain ⟨pre, x, rfl⟩ := (List.eq_nil_or_concat A).resolve_left hA
  rw [List.concat_append] at h nd hi ⊢
  rw [List.concat_append]
  obtain ⟨hnext, hprev⟩ := h.next_eq
  unfold Ptrs.enqueue Agree
  dsimp only
  rw [hprev, hnext, Function.update_comm (show Node.rtail ≠ .buf i from nofun)]
  refine ⟨?_, fun n hn hne => ?_⟩
  · exact h.link nd hi
  · simp only [List.mem_append, List.mem_cons, not_or] at hn
    exact ⟨by rw [Function.update_of_ne hn.2.1, Function.update_of_ne hne],
      by rw [Function.update_of_ne hn.2.2.1, Function.update_of_ne hne]⟩

theorem cache_spec {B : List Node} (h : Links p.rdNext p.rdPrev (.chead :: B))
    (nd : (Node.chead :: B).Nodup) (hB : B ≠ []) (hi : Node.buf i ∉ Node.chead :: B) :
    Links (p.cache i).rdNext (p.cache i).rdPrev (.chead :: .buf i :: B) ∧
      ∀ n, n ∉ Node.chead :: B → n ≠ .buf i → Agree p (p.cache i) n := by
  obtain ⟨y, post, rfl⟩ := List.exists_cons_of_ne_nil hB
  have hnext := (links_cons_cons.mp h).1.1
  unfold Ptrs.cache Agree
  dsimp only
  rw [hnext]
  refine ⟨Links.link (show Links p.rdNext p.rdPrev ([] ++ .chead :: y :: post) from h) nd hi, fun n hn hne => ?_⟩
  simp only [List.mem_cons, not_or] at hn
  exact ⟨by rw [Function.update_of_ne hn.1, Function.update_of_ne hne],
    by rw [Function.update_of_ne hn.2.1, Function.update_of_ne hne]⟩

/-! ## Edits of the device -/

namespace Holds

theorem requests_nodup (h : Holds p q c f) : q.Nodup :=
  (List.nodup_append.mp (List.nodup_append.mp h.nodup).1).1

theorem cache_nodup (h : Holds p q c f) : c.Nodup :=
  (List.nodup_append.mp (List.nodup_append.mp h.nodup).1).2.1

theorem not_cached (h : Holds p q c f) (hi : i ∈ q) : i ∉ c := fun hc =>
  (List.nodup_append.mp (List.nodup_append.mp h.nodup).1).2.2 i hi i hc rfl

theorem not_free (h : Holds p q c f) (hi : i ∈ q ++ c) : i ∉ f := fun hf =>
  (List.nodup_append.mp h.nodup).2.2 i hi i hf rfl

theorem requests_between_nodup (h : Holds p q c f) : (between .rhead .rtail q).Nodup :=
  between_nodup h.requests_nodup nofun nofun nofun

theorem cache_between_nodup (h : Holds p q c f) : (between .chead .ctail c).Nodup :=
  between_nodup h.cache_nodup nofun nofun nofun

/-- The nodes of the cache are not in the request queue. -/
theorem not_mem_requests (h : Holds p q c f) {n : Node} (hn : n ∈ between .chead .ctail c) :
    n ∉ between .rhead .rtail q := by
  rw [mem_between] at hn ⊢
  rcases hn with rfl | ⟨i, hi, rfl⟩ | rfl
  · simp
  · simp only [reduceCtorEq, Node.buf.injEq, exists_eq_right, false_or, or_false]
    exact fun hq => h.not_cached hq hi
  · simp

theorem not_mem_cache (h : Holds p q c f) {n : Node} (hn : n ∈ between .rhead .rtail q) :
    n ∉ between .chead .ctail c := fun hc => h.not_mem_requests hc hn

/-- A buffer that is free, or in no list, is in neither doubly linked list. -/
theorem buf_not_mem {l : List Bufid} (hi : i ∉ l) (hh : ∀ i, head ≠ .buf i)
    (ht : ∀ i, tail ≠ .buf i) : Node.buf i ∉ between head tail l := by
  rw [mem_between]
  rintro (hb | ⟨j, hj, hb⟩ | hb)
  · exact hh i hb.symm
  · cases hb
    exact hi hj
  · exact ht i hb.symm

/-- A request leaves the queue. -/
theorem unlink_request (h : Holds p (a ++ i :: b) c f) : Holds (p.unlink i) (a ++ b) c f := by
  have hlinks := h.requests
  have hnd := h.requests_between_nodup
  rw [between_split] at hlinks hnd
  obtain ⟨hreq, hag⟩ := unlink_spec hlinks hnd (by simp) (by simp)
  rw [← between_split] at hag
  have hmem : ∀ j ∈ f, j ∉ a ++ i :: b := fun j hj hq => h.not_free (List.mem_append_left _ hq) hj
  refine ⟨?_, ?_, ?_, h.head, ?_⟩
  · rw [between_append]
    exact hreq
  · exact links_frame h.cache fun n hn => hag n (h.not_mem_requests hn)
  · exact threaded_frame h.free fun j hj => hag _ (buf_not_mem (hmem j hj) nofun nofun)
  · refine h.nodup.sublist ?_
    exact (((List.sublist_cons_self i b).append_left a).append_right c).append_right f

/-- A buffer leaves the cache. -/
theorem unlink_cached (h : Holds p q (a ++ i :: b) f) : Holds (p.unlink i) q (a ++ b) f := by
  have hlinks := h.cache
  have hnd := h.cache_between_nodup
  rw [between_split] at hlinks hnd
  obtain ⟨hcache, hag⟩ := unlink_spec hlinks hnd (by simp) (by simp)
  rw [← between_split] at hag
  have hmem : ∀ j ∈ f, j ∉ a ++ i :: b := fun j hj hc => h.not_free (List.mem_append_right _ hc) hj
  refine ⟨?_, ?_, ?_, h.head, ?_⟩
  · exact links_frame h.requests fun n hn => hag n (h.not_mem_cache hn)
  · rw [between_append]
    exact hcache
  · exact threaded_frame h.free fun j hj => hag _ (buf_not_mem (hmem j hj) nofun nofun)
  · refine h.nodup.sublist ?_
    exact (((List.sublist_cons_self i b).append_left a).append_left q).append_right f

/-- A buffer that is in no list becomes the last request. -/
theorem enqueue (h : Holds p q c f) (hi : i ∉ q ++ c ++ f) : Holds (p.enqueue i) (q ++ [i]) c f := by
  have hif : i ∉ f := fun hf => hi (List.mem_append_right _ hf)
  have hiq : i ∉ q := fun hq => hi (by simp [hq])
  have hic : i ∉ c := fun hc => hi (by simp [hc])
  obtain ⟨hreq, hag⟩ := enqueue_spec (A := .rhead :: q.map Node.buf) h.requests
    h.requests_between_nodup (by simp) (buf_not_mem hiq nofun nofun)
  refine ⟨?_, ?_, ?_, h.head, ?_⟩
  · rw [between_append]
    exact hreq
  · refine links_frame h.cache fun n hn => hag n (h.not_mem_requests hn) ?_
    rintro rfl
    exact absurd hn (buf_not_mem hic nofun nofun)
  · refine threaded_frame h.free fun j hj => hag _ (buf_not_mem ?_ nofun nofun) ?_
    · exact fun hq => h.not_free (List.mem_append_left _ hq) hj
    · rintro ⟨⟩
      exact hif hj
  · have hperm : (q ++ [i] ++ c ++ f).Perm (i :: (q ++ c ++ f)) := by
      simp [List.append_assoc, List.perm_middle]
    exact hperm.nodup_iff.mpr (List.nodup_cons.mpr ⟨hi, h.nodup⟩)

/-- A buffer that is in no list becomes the first of the cache. -/
theorem cache_new (h : Holds p q c f) (hi : i ∉ q ++ c ++ f) : Holds (p.cache i) q (i :: c) f := by
  have hif : i ∉ f := fun hf => hi (List.mem_append_right _ hf)
  have hiq : i ∉ q := fun hq => hi (by simp [hq])
  have hic : i ∉ c := fun hc => hi (by simp [hc])
  obtain ⟨hcache, hag⟩ := cache_spec h.cache h.cache_between_nodup (by simp)
    (buf_not_mem hic nofun nofun)
  refine ⟨?_, hcache, ?_, h.head, ?_⟩
  · refine links_frame h.requests fun n hn => hag n (h.not_mem_cache hn) ?_
    rintro rfl
    exact absurd hn (buf_not_mem hiq nofun nofun)
  · refine threaded_frame h.free fun j hj => hag _ (buf_not_mem ?_ nofun nofun) ?_
    · exact fun hc => h.not_free (List.mem_append_right _ hc) hj
    · rintro ⟨⟩
      exact hif hj
  · have hperm : (q ++ (i :: c) ++ f).Perm (i :: (q ++ c ++ f)) := by
      simp [List.append_assoc, List.perm_middle]
    exact hperm.nodup_iff.mpr (List.nodup_cons.mpr ⟨hi, h.nodup⟩)

/-- The first buffer of the free list is taken. -/
theorem free_tail (h : Holds p q c (i :: f)) :
    Holds { p with rdFree := p.rdNext (.buf i) } q c f := by
  refine ⟨h.requests, h.cache, ?_, ?_, ?_⟩
  · have hfree := h.free
    rw [List.map_cons, List.cons_append] at hfree
    cases f with
    | nil => simp
    | cons j f => exact (threaded_cons_cons.mp hfree).2
  · have hfree := h.free
    cases f with
    | nil => exact (threaded_cons_cons.mp hfree).1
    | cons j f => exact (threaded_cons_cons.mp hfree).1
  · exact (List.nodup_cons.mp (List.perm_middle.nodup_iff.mp h.nodup)).2

end Holds

/-! ## Searches -/

/-- What a loop over a list finds. -/
def found : Option Bufid → Found
  | some i => .at i
  | none => .nowhere

/-- **A loop over a list** ends, with the first buffer that passes the test. -/
theorem search_eq {link : Node → Node} {test : Bufid → Bool} {stop : Node}
    (hstop : ∀ i, stop ≠ .buf i) {l : List Bufid} {n : Nat} {node : Node} (hn : l.length < n)
    (h : Threaded link (node :: (l.map Node.buf ++ [stop]))) :
    search link test stop n (link node) = found (l.find? test) := by
  induction l generalizing n node with
  | nil =>
    have hlink : link node = stop := (threaded_cons_cons.mp h).1
    cases n with
    | zero => exact absurd hn (Nat.not_lt_zero _)
    | succ n =>
      unfold search
      rw [hlink, if_pos rfl]
      rfl
  | cons i l ih =>
    rw [List.map_cons, List.cons_append, threaded_cons_cons] at h
    cases n with
    | zero => exact absurd hn (Nat.not_lt_zero _)
    | succ n =>
      unfold search
      rw [h.1, if_neg (hstop i).symm, List.find?_cons]
      cases ht : test i with
      | true => simp [ht, found]
      | false =>
        simp only [ht]
        exact ih (Nat.lt_of_succ_lt_succ hn) h.2

theorem length_lt_of_nodup {l : List Bufid} (h : l.Nodup) : l.length < RD_BUFFS + 1 := by
  have hcard := h.length_le_card
  rw [Fintype.card_fin] at hcard
  exact Nat.lt_succ_of_le hcard

theorem between_reverse {l : List Bufid} :
    (between head tail l).reverse = between tail head l.reverse := by
  simp [between]

namespace Holds

theorem cached_eq (h : Holds p q c f) (test : Bufid → Bool) :
    p.cached test = found (c.find? test) :=
  search_eq (by simp) (length_lt_of_nodup h.cache_nodup) h.cache.threaded

theorem requested_eq (h : Holds p q c f) (test : Bufid → Bool) :
    p.requested test = found (q.find? test) :=
  search_eq (by simp) (length_lt_of_nodup h.requests_nodup) h.requests.threaded

theorem oldest_eq (h : Holds p q c f) (test : Bufid → Bool) :
    p.oldest test = found (c.reverse.find? test) := by
  have hprev := h.cache.threaded_reverse
  rw [between_reverse] at hprev
  exact search_eq (by simp) (length_lt_of_nodup (List.nodup_reverse.mpr h.cache_nodup)) hprev

theorem recent_eq (h : Holds p q c f) (test : Bufid → Bool) :
    p.recent test = found (q.reverse.find? test) := by
  have hprev := h.requests.threaded_reverse
  rw [between_reverse] at hprev
  exact search_eq (by simp) (length_lt_of_nodup (List.nodup_reverse.mpr h.requests_nodup)) hprev

/-- The first request. -/
theorem next_rhead (h : Holds p (i :: q) c f) : p.rdNext .rhead = .buf i :=
  (links_cons_cons.mp h.requests).1.1

end Holds

/-- Where `rdsbufalloc` gets its buffer from: the free list, or the cache, with
no other item behind it that could be taken. -/
inductive Alloc (test : Bufid → Bool) (c f : List Bufid) : Bufid → List Bufid → List Bufid → Prop
  | free {i : Bufid} {f' : List Bufid} (h : f = i :: f') : Alloc test c f i c f'
  | cache {a b : List Bufid} {i : Bufid} (hf : f = []) (hc : c = a ++ i :: b) (ht : test i)
      (hb : ∀ j ∈ b, ¬ test j) : Alloc test c f i (a ++ b) f

/-- **`rdsbufalloc`** takes a buffer out of its list, unless there is none that
it could take. -/
theorem Holds.bufalloc (h : Holds p q c f) (test : Bufid → Bool) :
    (∃ i c' f' p', p.bufalloc test = (.at i, p') ∧ Alloc test c f i c' f' ∧ Holds p' q c' f' ∧
        i ∉ q ++ c' ++ f') ∨
      (p.bufalloc test).1 = .nowhere ∧ f = [] ∧ ∀ i ∈ c, ¬ test i := by
  have hhead := h.head
  unfold Ptrs.bufalloc
  cases f with
  | cons i f =>
    refine .inl ⟨i, c, f, _, ?_, .free rfl, h.free_tail, ?_⟩
    · rw [show p.rdFree = .buf i from hhead]
    · exact (List.nodup_cons.mp (List.perm_middle.nodup_iff.mp h.nodup)).1
  | nil =>
    rw [show p.rdFree = .null from hhead]
    dsimp only
    rw [h.oldest_eq]
    cases hfind : c.reverse.find? test with
    | none =>
      refine .inr ⟨rfl, rfl, fun i hi => ?_⟩
      exact List.find?_eq_none.mp hfind i (List.mem_reverse.mpr hi)
    | some i =>
      obtain ⟨ht, a, b, hsplit, hnot⟩ := List.find?_eq_some_iff_append.mp hfind
      have hc : c = b.reverse ++ i :: a.reverse := by
        rw [← List.reverse_reverse c, hsplit]
        simp
      subst hc
      refine .inl ⟨i, b.reverse ++ a.reverse, [], _, rfl, .cache rfl rfl ht fun j hj => ?_,
        h.unlink_cached, ?_⟩
      · have hj' := hnot j (List.mem_reverse.mp hj)
        simpa using hj'
      · have hnd := h.nodup
        have hperm : (q ++ (b.reverse ++ i :: a.reverse) ++ []).Perm
            (i :: (q ++ (b.reverse ++ a.reverse) ++ [])) := by
          simp only [List.append_nil, ← List.append_assoc]
          exact List.perm_middle
        exact (List.nodup_cons.mp (hperm.nodup_iff.mp hnd)).1

end Xinu.Rds
