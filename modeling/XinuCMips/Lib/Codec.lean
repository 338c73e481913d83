import Mathlib.Logic.Equiv.Defs
import Mathlib.Tactic.Ring
import Mathlib.Data.List.Basic

/-!
# Fixed-width layouts

How a C structure lies in memory: a `Codec` writes a value as a fixed number
of bytes and reads it back. A value may only be written when it fits its
fields (`Ok`); whatever is read fits them.

* `Codec.word`, `Codec.nullable`, `Codec.raw` — little-endian words, words
  in which all ones stand for "none", plain bytes;
* `Codec.pair`, `Codec.many`, `Codec.iso` — consecutive fields, arrays, and
  a structure in place of nested pairs;
* `slice_splice_self` / `slice_splice_apart` — a record overwritten in the
  middle of a buffer reads back as written, one beside it as before.
-/

namespace Bytes

/-! ## Records inside a buffer -/

variable {α β : Type}

/-- The `n` elements from offset `o` on. -/
def slice (o n : Nat) (l : List α) : List α := (l.drop o).take n

/-- The buffer `l` with the elements from offset `o` on overwritten by `new`. -/
def splice (o : Nat) (new l : List α) : List α :=
  l.take o ++ new ++ l.drop (o + new.length)

/-- What is overwritten may reach behind the end. -/
theorem length_splice_of_le {o : Nat} {new l : List α} (h : o ≤ l.length) :
    (splice o new l).length = max l.length (o + new.length) := by
  unfold splice
  simp only [List.length_append, List.length_take, List.length_drop]
  omega

theorem length_splice {o : Nat} {new l : List α} (h : o + new.length ≤ l.length) :
    (splice o new l).length = l.length := by
  rw [length_splice_of_le (by omega), Nat.max_eq_left h]

theorem getElem?_splice_of_le {o : Nat} {new l : List α} (h : o ≤ l.length) (k : Nat) :
    (splice o new l)[k]? = if o ≤ k ∧ k < o + new.length then new[k - o]? else l[k]? := by
  unfold splice
  have hlen : (l.take o).length = o := by
    rw [List.length_take]
    omega
  rcases Nat.lt_or_ge k o with hk | hk
  · rw [if_neg (by omega), List.append_assoc, List.getElem?_append_left (by omega),
      List.getElem?_take, if_pos hk]
  · rcases Nat.lt_or_ge k (o + new.length) with hk' | hk'
    · rw [if_pos ⟨hk, hk'⟩, List.append_assoc, List.getElem?_append_right (by omega), hlen,
        List.getElem?_append_left (by omega)]
    · rw [if_neg (by omega), List.getElem?_append_right (by simp; omega), List.getElem?_drop]
      congr 1
      simp only [List.length_append, hlen]
      omega

theorem getElem?_splice {o : Nat} {new l : List α} (h : o + new.length ≤ l.length) (k : Nat) :
    (splice o new l)[k]? = if o ≤ k ∧ k < o + new.length then new[k - o]? else l[k]? :=
  getElem?_splice_of_le (by omega) k

/-- Two writes one after the other are one. -/
theorem splice_append {o : Nat} {a b l : List α} (h : o ≤ l.length) :
    splice (o + a.length) b (splice o a l) = splice o (a ++ b) l := by
  have hlen := @length_splice_of_le _ o a l h
  refine List.ext_getElem? fun k => ?_
  rw [getElem?_splice_of_le (by omega), getElem?_splice_of_le h, getElem?_splice_of_le h,
    List.length_append]
  by_cases hk : k < o + a.length
  · -- a position before the second write
    rw [if_neg (by omega)]
    by_cases hk' : o ≤ k
    · rw [if_pos ⟨hk', hk⟩, if_pos (by omega), List.getElem?_append_left (by omega)]
    · rw [if_neg (by omega), if_neg (by omega)]
  · by_cases hk' : k < o + a.length + b.length
    · rw [if_pos (by omega), if_pos (by omega), List.getElem?_append_right (by omega)]
      congr 1
      omega
    · rw [if_neg (by omega), if_neg (by omega), if_neg (by omega)]

theorem getElem?_slice {o n : Nat} {l : List α} (k : Nat) :
    (slice o n l)[k]? = if k < n then l[o + k]? else none := by
  unfold slice
  rw [List.getElem?_take, List.getElem?_drop]

/-- What was written is read back. -/
theorem slice_splice_self {o : Nat} {new l : List α} (h : o + new.length ≤ l.length) :
    slice o new.length (splice o new l) = new := by
  apply List.ext_getElem?
  intro k
  rw [getElem?_slice, getElem?_splice h]
  split
  · rw [if_pos (by omega), Nat.add_sub_cancel_left]
  · exact (List.getElem?_eq_none (by omega)).symm

/-- Records that do not overlap do not disturb each other. -/
theorem slice_splice_apart {o o' n : Nat} {new l : List α} (h : o + new.length ≤ l.length)
    (hap : o' + n ≤ o ∨ o + new.length ≤ o') : slice o' n (splice o new l) = slice o' n l := by
  apply List.ext_getElem?
  intro k
  rw [getElem?_slice, getElem?_slice]
  split
  · rw [getElem?_splice h, if_neg (by omega)]
  · rfl

/-! ## Little-endian numbers -/

/-- The low `n` bytes of `x`, least significant first. -/
def leBytes : Nat → Nat → List UInt8
  | 0, _ => []
  | n + 1, x => UInt8.ofNat (x % 256) :: leBytes n (x / 256)

/-- The number that a list of bytes stands for, least significant byte first. -/
def ofLe : List UInt8 → Nat
  | [] => 0
  | b :: l => b.toNat + 256 * ofLe l

@[simp] theorem length_leBytes (n x : Nat) : (leBytes n x).length = n := by
  induction n generalizing x with
  | zero => rfl
  | succ n ih =>
    unfold leBytes
    rw [List.length_cons, ih]

theorem ofLe_lt (l : List UInt8) : ofLe l < 256 ^ l.length := by
  induction l with
  | nil => simp [ofLe]
  | cons b l ih =>
    have hb := b.toNat_lt
    unfold ofLe
    rw [List.length_cons, Nat.pow_succ]
    omega

theorem ofLe_leBytes {n x : Nat} (h : x < 256 ^ n) : ofLe (leBytes n x) = x := by
  induction n generalizing x with
  | zero =>
    rw [Nat.pow_zero] at h
    unfold leBytes ofLe
    omega
  | succ n ih =>
    rw [Nat.pow_succ] at h
    unfold leBytes ofLe
    rw [ih (by omega), UInt8.toNat_ofNat']
    omega

end Bytes

/-! ## Codecs -/

/-- A layout of `α` on `width` bytes. -/
structure Codec (α : Type) where
  width : Nat
  /-- the value fits its fields -/
  Ok : α → Prop
  enc : α → List UInt8
  dec : List UInt8 → α
  length_enc : ∀ {a}, Ok a → (enc a).length = width
  dec_enc : ∀ {a}, Ok a → dec (enc a) = a
  dec_ok : ∀ {l}, l.length = width → Ok (dec l)

namespace Codec

open Bytes

variable {α β : Type}

/-- An unsigned word of `n` bytes. -/
def word (n : Nat) : Codec Nat where
  width := n
  Ok x := x < 256 ^ n
  enc := leBytes n
  dec := ofLe
  length_enc _ := length_leBytes n _
  dec_enc := ofLe_leBytes
  dec_ok := by
    intro l hl
    exact hl ▸ ofLe_lt l

/-- A word of `n` bytes in which all ones mean that there is no number. -/
def nullable (n : Nat) : Codec (Option Nat) where
  width := n
  Ok b := ∀ x, b = some x → x < 256 ^ n - 1
  enc b := leBytes n (b.getD (256 ^ n - 1))
  dec l := if ofLe l = 256 ^ n - 1 then none else some (ofLe l)
  length_enc _ := length_leBytes n _
  dec_enc := by
    intro b hb
    have hpos : 0 < 256 ^ n := Nat.pow_pos (by omega)
    cases b with
    | none =>
      rw [Option.getD_none, ofLe_leBytes (by omega), if_pos rfl]
    | some x =>
      have hx := hb x rfl
      rw [Option.getD_some, ofLe_leBytes (by omega), if_neg (by omega)]
  dec_ok := by
    intro l hl x hx
    have hlt := ofLe_lt l
    rw [hl] at hlt
    split at hx
    · cases hx
    · obtain rfl := Option.some.inj hx
      omega

/-- `n` plain bytes. -/
def raw (n : Nat) : Codec (List UInt8) where
  width := n
  Ok l := l.length = n
  enc := id
  dec := id
  length_enc h := h
  dec_enc _ := rfl
  dec_ok h := h

/-- One field after another. -/
def pair (c : Codec α) (d : Codec β) : Codec (α × β) where
  width := c.width + d.width
  Ok p := c.Ok p.1 ∧ d.Ok p.2
  enc p := c.enc p.1 ++ d.enc p.2
  dec l := (c.dec (l.take c.width), d.dec (l.drop c.width))
  length_enc h := by rw [List.length_append, c.length_enc h.1, d.length_enc h.2]
  dec_enc := by
    intro p h
    have hl := c.length_enc h.1
    rw [List.take_left' hl, List.drop_left' hl, c.dec_enc h.1, d.dec_enc h.2]
  dec_ok := by
    intro l hl
    refine ⟨c.dec_ok ?_, d.dec_ok ?_⟩
    · rw [List.length_take]
      omega
    · rw [List.length_drop]
      omega

/-- The first `n` records of a buffer. -/
def decMany (c : Codec α) : Nat → List UInt8 → List α
  | 0, _ => []
  | n + 1, l => c.dec (l.take c.width) :: decMany c n (l.drop c.width)

theorem length_decMany (c : Codec α) (n : Nat) (l : List UInt8) : (c.decMany n l).length = n := by
  induction n generalizing l with
  | zero => rfl
  | succ n ih =>
    unfold decMany
    rw [List.length_cons, ih]

theorem length_flatMap_enc (c : Codec α) {l : List α} (h : ∀ a ∈ l, c.Ok a) :
    (l.flatMap c.enc).length = l.length * c.width := by
  induction l with
  | nil => simp
  | cons a l ih =>
    rw [List.flatMap_cons, List.length_append, c.length_enc (h a List.mem_cons_self),
      ih fun b hb => h b (List.mem_cons_of_mem a hb), List.length_cons]
    ring

theorem decMany_flatMap_enc (c : Codec α) {l : List α} (h : ∀ a ∈ l, c.Ok a) :
    c.decMany l.length (l.flatMap c.enc) = l := by
  induction l with
  | nil => rfl
  | cons a l ih =>
    have hl := c.length_enc (h a List.mem_cons_self)
    rw [List.length_cons, List.flatMap_cons]
    unfold decMany
    rw [List.take_left' hl, List.drop_left' hl, c.dec_enc (h a List.mem_cons_self),
      ih fun b hb => h b (List.mem_cons_of_mem a hb)]

theorem decMany_ok (c : Codec α) {n : Nat} {l : List UInt8} (h : l.length = n * c.width) :
    ∀ a ∈ c.decMany n l, c.Ok a := by
  induction n generalizing l with
  | zero => simp [decMany]
  | succ n ih =>
    rw [Nat.succ_mul] at h
    unfold decMany
    rw [List.forall_mem_cons]
    refine ⟨c.dec_ok ?_, ih ?_⟩
    · rw [List.length_take]
      omega
    · rw [List.length_drop]
      omega

/-- An array of `n` records. -/
def many (n : Nat) (c : Codec α) : Codec (List α) where
  width := n * c.width
  Ok l := l.length = n ∧ ∀ a ∈ l, c.Ok a
  enc l := l.flatMap c.enc
  dec := c.decMany n
  length_enc h := by rw [c.length_flatMap_enc h.2, h.1]
  dec_enc := by
    intro l h
    rw [← h.1]
    exact c.decMany_flatMap_enc h.2
  dec_ok h := ⟨c.length_decMany n _, c.decMany_ok h⟩

/-- The same layout for another way to group the fields. -/
def iso (c : Codec α) (e : α ≃ β) : Codec β where
  width := c.width
  Ok b := c.Ok (e.symm b)
  enc b := c.enc (e.symm b)
  dec l := e (c.dec l)
  length_enc h := c.length_enc h
  dec_enc h := by rw [c.dec_enc h, Equiv.apply_symm_apply]
  dec_ok h := by
    rw [Equiv.symm_apply_apply]
    exact c.dec_ok h

end Codec
