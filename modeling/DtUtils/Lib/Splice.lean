/-
Byte ranges of a list: `slice off n l` is the `n` items of `l` from `off`
on, `splice off d l` is `l` with the items from `off` on replaced by `d`.
What a splice leaves alone, where it can be read back, and when it is a
plain concatenation. Over any type: the items may be bytes of a medium, of
a buffer, or anything else.
-/
import Mathlib.Data.List.Basic
import Mathlib.Tactic.Ring

namespace Lib

variable {α : Type*}

/-- The `n` items of `l` from position `off` on (fewer at the end). -/
def slice (off n : Nat) (l : List α) : List α := (l.drop off).take n

/-- `l` with the items from position `off` on replaced by `d`. -/
def splice (off : Nat) (d l : List α) : List α := l.take off ++ d ++ l.drop (off + d.length)

/-! ## Slices -/

theorem slice_length {off n : Nat} {l : List α} (h : off + n ≤ l.length) : (slice off n l).length = n := by
  simp [slice]; omega

theorem slice_length_le (off n : Nat) (l : List α) : (slice off n l).length ≤ n := by
  simp [slice]

@[simp] theorem slice_zero_length (l : List α) : slice 0 l.length l = l := by simp [slice]

@[simp] theorem slice_zero_left (n : Nat) (l : List α) : slice 0 n l = l.take n := by simp [slice]

theorem slice_append_mid {off n : Nat} {a b c : List α} (ha : a.length = off) (hb : b.length = n) :
    slice off n (a ++ b ++ c) = b := by
  subst ha hb
  simp [slice, List.append_assoc]

theorem slice_append_left {off n : Nat} {a b : List α} (h : off + n ≤ a.length) :
    slice off n (a ++ b) = slice off n a := by
  simp only [slice]
  rw [List.drop_append_of_le_length (by omega), List.take_append_of_le_length (by simp; omega)]

theorem slice_append_right {off n : Nat} {a b : List α} (h : a.length ≤ off) :
    slice off n (a ++ b) = slice (off - a.length) n b := by
  simp only [slice]
  rw [List.drop_append, List.drop_eq_nil_of_le h, List.nil_append]

theorem slice_slice {a n b m : Nat} {l : List α} (h : b + m ≤ n) :
    slice b m (slice a n l) = slice (a + b) m l := by
  simp only [slice]
  rw [List.drop_take, List.drop_drop, List.take_take, Nat.min_eq_left (by omega)]

theorem slice_take {off n m : Nat} {l : List α} (h : off + n ≤ m) : slice off n (l.take m) = slice off n l := by
  rw [← slice_zero_left, slice_slice h, Nat.zero_add]

theorem slice_eq_append {off n m : Nat} (l : List α) :
    slice off (n + m) l = slice off n l ++ slice (off + n) m l := by
  simp only [slice]
  rw [List.take_add, List.drop_drop]

theorem getElem?_slice {off n i : Nat} {l : List α} (h : i < n) : (slice off n l)[i]? = l[off + i]? := by
  simp only [slice, List.getElem?_take, h, if_true, List.getElem?_drop]

theorem slice_ext {off n : Nat} {l l' : List α} (h : ∀ i, i < n → l[off + i]? = l'[off + i]?) :
    slice off n l = slice off n l' := by
  apply List.ext_getElem?
  intro i
  by_cases hi : i < n
  · rw [getElem?_slice hi, getElem?_slice hi, h i hi]
  · rw [List.getElem?_eq_none (by have := slice_length_le off n l; omega),
      List.getElem?_eq_none (by have := slice_length_le off n l'; omega)]

/-! ## Splices -/

theorem splice_length {off : Nat} {d l : List α} (h : off + d.length ≤ l.length) :
    (splice off d l).length = l.length := by
  simp [splice]; omega

@[simp] theorem splice_nil (off : Nat) (l : List α) : splice off [] l = l := by simp [splice]

theorem splice_append {off : Nat} {a b c d : List α} (ha : a.length = off) (hb : b.length = d.length) :
    splice off d (a ++ b ++ c) = a ++ d ++ c := by
  have ht : (a ++ b ++ c).take off = a := by rw [List.append_assoc, List.take_left' ha]
  have hd : (a ++ b ++ c).drop (off + d.length) = c := List.drop_left' (by simp [ha, hb])
  rw [splice, ht, hd]

theorem getElem?_splice {off i : Nat} {d l : List α} (h : off ≤ l.length) :
    (splice off d l)[i]? = if i < off then l[i]? else if i < off + d.length then d[i - off]? else l[i]? := by
  have ht : (l.take off).length = off := by simp [h]
  rw [splice, List.append_assoc]
  by_cases h1 : i < off
  · rw [List.getElem?_append_left (by omega), List.getElem?_take, if_pos h1, if_pos h1]
  rw [if_neg h1, List.getElem?_append_right (by omega), ht]
  by_cases h2 : i < off + d.length
  · rw [List.getElem?_append_left (by omega), if_pos h2]
  · rw [if_neg h2, List.getElem?_append_right (by omega), List.getElem?_drop]
    congr 1
    omega

theorem slice_splice_self {off : Nat} {d l : List α} (h : off ≤ l.length) :
    slice off d.length (splice off d l) = d :=
  slice_append_mid (by simp [h]) rfl

theorem slice_splice_before {off a n : Nat} {d l : List α} (h : off ≤ l.length) (hn : a + n ≤ off) :
    slice a n (splice off d l) = slice a n l :=
  slice_ext fun i hi => by rw [getElem?_splice h, if_pos (by omega)]

theorem drop_splice {off a : Nat} {d l : List α} (h : off ≤ l.length) (ha : off + d.length ≤ a) :
    (splice off d l).drop a = l.drop a := by
  apply List.ext_getElem?
  intro i
  rw [List.getElem?_drop, List.getElem?_drop, getElem?_splice h, if_neg (by omega), if_neg (by omega)]

theorem splice_append_data {off n : Nat} {a b l : List α} (h : a.length = n) (hoff : off ≤ l.length) :
    splice (off + n) b (splice off a l) = splice off (a ++ b) l := by
  subst h
  have ht : (l.take off ++ a).length = off + a.length := by rw [List.length_append, List.length_take_of_le hoff]
  have htake : (splice off a l).take (off + a.length) = l.take off ++ a := List.take_left' ht
  have hdrop : (splice off a l).drop (off + a.length + b.length) = l.drop (off + (a ++ b).length) := by
    rw [splice, ← List.drop_drop, List.drop_left' ht, List.drop_drop, List.length_append, Nat.add_assoc]
  rw [splice, htake, hdrop, splice, List.append_assoc (l.take off)]

theorem splice_splice {n : Nat} {a b l : List α} (h : a.length = n) :
    splice n b (splice 0 a l) = splice 0 (a ++ b) l := by
  simpa only [Nat.zero_add] using splice_append_data h (Nat.zero_le l.length)

/-- Overwriting the front of a list with the first `k` elements of `a ++ b`
when it starts with `a` already. -/
theorem splice_take_append {k : Nat} {a b q r : List α} (h : b.length = q.length) :
    splice 0 ((a ++ b).take k) (a ++ q ++ r) = a ++ (b.take (k - a.length) ++ q.drop (k - a.length)) ++ r := by
  rcases Nat.le_total k a.length with hk | hk
  · have h0 : k - a.length = 0 := by omega
    rw [h0, List.take_append_of_le_length hk]
    simp only [splice, List.take_zero, List.nil_append, Nat.zero_add, List.length_take, Nat.min_eq_left hk,
      List.drop_zero, List.append_assoc]
    rw [List.drop_append_of_le_length hk, ← List.append_assoc, List.take_append_drop]
  · rw [List.take_append, List.take_of_length_le hk]
    have hj : (b.take (k - a.length)).length = min (k - a.length) q.length := by rw [List.length_take, h]
    have hq : (q ++ r).drop (min (k - a.length) q.length) = q.drop (k - a.length) ++ r := by
      rw [List.drop_append_of_le_length (Nat.min_le_right _ _)]
      rcases Nat.le_total (k - a.length) q.length with hle | hle
      · rw [Nat.min_eq_left hle]
      · rw [Nat.min_eq_right hle, List.drop_length, List.drop_of_length_le hle]
    simp only [splice, List.take_zero, List.nil_append, Nat.zero_add, List.length_append, hj, List.append_assoc]
    rw [List.drop_append, List.drop_of_length_le (by omega), Nat.add_sub_cancel_left, hq, List.nil_append]

/-! ## Occurrences -/

/-- `l` has `x` at `off`. -/
def HasAt (off : Nat) (x l : List α) : Prop := slice off x.length l = x

theorem hasAt_mid {off : Nat} {a b c : List α} (h : a.length = off) : HasAt off b (a ++ b ++ c) :=
  slice_append_mid h rfl

theorem hasAt_append {off : Nat} {x y l : List α} :
    HasAt off (x ++ y) l ↔ HasAt off x l ∧ HasAt (off + x.length) y l := by
  unfold HasAt
  rw [List.length_append, slice_eq_append]
  constructor
  · intro h
    have hx : (slice off x.length l).length = x.length := by
      have hle := slice_length_le off x.length l
      have hle' := slice_length_le (off + x.length) y.length l
      have hlen := congrArg List.length h
      rw [List.length_append, List.length_append] at hlen
      omega
    exact List.append_inj h hx
  · rintro ⟨hx, hy⟩
    rw [hx, hy]

theorem HasAt.le {off : Nat} {x l : List α} (h : HasAt off x l) (hx : x ≠ []) : off + x.length ≤ l.length := by
  have hlen := congrArg List.length h
  simp only [slice, List.length_take, List.length_drop] at hlen
  have := List.length_pos_iff.2 hx
  omega

end Lib
