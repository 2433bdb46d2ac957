import CanbusAgent.Lib.Region
import Mathlib.Data.List.Basic
import Mathlib.Tactic.Ring

/-!
# Splitting a list and filling a quota

Three general facts about moving a sequence through fixed-size units.

* A sender cuts a list into chunks of `n` elements with a shorter last one.
  `chunk n xs i` is the chunk with index `i`, and the first `k` chunks together
  are the first `n * k` elements (`flatten_chunks`).  `chunkCount` is the number
  of chunks of the whole list.
* A list whose length is a multiple of `n` is the same as a list of vectors of
  that length.  `blocks` and `unblocks` go to and fro.
* A receiver takes items until their weights reach a quota.  `Reaches` says
  that an item is the one that reaches it, and this item is determined by the
  sequence (`reaches_unique`).  The total exceeds the quota only when an item
  outweighs what was left; `Fits` says that this does not happen, and
  `fits_iff_of_reaches` reads it off the total.
-/

universe u

namespace Chunks

variable {α : Type u}

/-! ## Chunks -/

/-- The chunk with index `i` when a list is cut into pieces of `n` elements. -/
def chunk (n : Nat) (xs : List α) (i : Nat) : List α := (xs.drop (n * i)).take n

@[simp] theorem chunk_length (n : Nat) (xs : List α) (i : Nat) :
    (chunk n xs i).length = min n (xs.length - n * i) := by
  simp [chunk]

/-- The first `k` chunks are the first `n * k` elements. -/
theorem flatten_chunks (n : Nat) (xs : List α) (k : Nat) :
    ((List.range k).map (chunk n xs)).flatten = xs.take (n * k) := by
  induction k with
  | zero => simp
  | succ k ih =>
    rw [List.range_succ, List.map_append, List.flatten_append, ih, Nat.mul_succ, List.take_add]
    simp [chunk]

/-- The number of chunks of `n` elements that a list of `len` elements is cut into. -/
def chunkCount (n len : Nat) : Nat := (len + (n - 1)) / n

theorem lt_chunkCount {n len : Nat} (hn : 0 < n) {i : Nat} :
    i < chunkCount n len ↔ n * i < len := by
  rw [chunkCount, Nat.lt_iff_add_one_le, Nat.le_div_iff_mul_le hn, Nat.add_mul, Nat.one_mul,
    Nat.mul_comm]
  omega

/-- All the chunks together are the list. -/
theorem flatten_all_chunks {n : Nat} (hn : 0 < n) (xs : List α) :
    ((List.range (chunkCount n xs.length)).map (chunk n xs)).flatten = xs := by
  have hall : ¬ n * chunkCount n xs.length < xs.length :=
    fun h => Nat.lt_irrefl _ ((lt_chunkCount hn).mpr h)
  rw [flatten_chunks, List.take_of_length_le (Nat.not_lt.mp hall)]

/-- The chunks of a list of pieces of one length are these pieces. -/
theorem map_chunk_flatten {n : Nat} {xss : List (List α)} (h : ∀ xs ∈ xss, xs.length = n)
    (ys : List α) : (List.range xss.length).map (chunk n (xss.flatten ++ ys)) = xss := by
  induction xss with
  | nil => rfl
  | cons xs xss ih =>
    have hlen := h xs List.mem_cons_self
    rw [List.length_cons, List.range_succ_eq_map, List.map_cons, List.map_map, List.flatten_cons,
      List.append_assoc]
    have hhead : chunk n (xs ++ (xss.flatten ++ ys)) 0 = xs := by
      rw [chunk, Nat.mul_zero, List.drop_zero, List.take_left' hlen]
    have htail : chunk n (xs ++ (xss.flatten ++ ys)) ∘ Nat.succ = chunk n (xss.flatten ++ ys) := by
      funext i
      rw [Function.comp_apply, chunk, chunk, Nat.mul_succ, Nat.add_comm, ← List.drop_drop,
        List.drop_left' hlen]
    rw [hhead, htail, ih fun zs hzs => h zs (List.mem_cons_of_mem xs hzs)]

/-- A chunk of a slice is a slice. -/
theorem chunk_slice (n : Nat) (m : Nat → α) (L i : Nat) :
    chunk n (Region.slice m 0 L) i = Region.slice m (n * i) (min n (L - n * i)) := by
  apply List.ext_getElem
  · simp
  · intro j _ _
    simp [chunk, Region.slice]

/-! ## Blocks -/

section Blocks

variable {n : Nat} [Inhabited α]

/-- The first `k` vectors of `n` elements of a list. -/
def blocks (n : Nat) : Nat → List α → List (Vector α n)
  | 0, _ => []
  | k + 1, xs => Vector.ofFn (fun j => xs.getD j.val default) :: blocks n k (xs.drop n)

/-- The elements of a list of vectors. -/
def unblocks (bs : List (Vector α n)) : List α := bs.flatMap (·.toList)

@[simp] theorem blocks_length (k : Nat) (xs : List α) : (blocks n k xs).length = k := by
  induction k generalizing xs with
  | zero => rfl
  | succ k ih => simp [blocks, ih]

omit [Inhabited α] in
@[simp] theorem unblocks_length (bs : List (Vector α n)) :
    (unblocks bs).length = n * bs.length := by
  induction bs with
  | nil => rfl
  | cons b bs ih =>
    rw [unblocks, List.flatMap_cons, List.length_append, Vector.length_toList,
      List.length_cons, Nat.mul_succ, Nat.add_comm]
    exact congrArg (· + n) ih

theorem unblocks_blocks {k : Nat} {xs : List α} (h : xs.length = n * k) :
    unblocks (blocks n k xs) = xs := by
  induction k generalizing xs with
  | zero => exact (List.eq_nil_of_length_eq_zero h).symm
  | succ k ih =>
    rw [Nat.mul_succ] at h
    have hhead : (Vector.ofFn fun j : Fin n => xs.getD j.val default).toList = xs.take n := by
      apply List.ext_getElem
      · rw [Vector.length_toList, List.length_take]
        omega
      · intro j hj _
        have hj' : j < xs.length := by
          rw [Vector.length_toList] at hj
          omega
        simp [hj']
    have htail : unblocks (blocks n k (xs.drop n)) = xs.drop n :=
      ih (by rw [List.length_drop]; omega)
    rw [blocks, unblocks, List.flatMap_cons, hhead]
    exact (congrArg (xs.take n ++ ·) htail).trans (List.take_append_drop n xs)

theorem blocks_unblocks (bs : List (Vector α n)) : blocks n bs.length (unblocks bs) = bs := by
  induction bs with
  | nil => rfl
  | cons b bs ih =>
    have hcons : unblocks (b :: bs) = b.toList ++ unblocks bs := List.flatMap_cons
    have hhead :
        (Vector.ofFn fun j : Fin n => (b.toList ++ unblocks bs).getD j.val default) = b := by
      ext j hj
      simp [List.getElem?_append]
    have htail : (b.toList ++ unblocks bs).drop n = unblocks bs :=
      List.drop_left' (by simp)
    rw [List.length_cons, blocks, hcons, hhead, htail, ih]

/-- Whole blocks in front of a list are blocks of their own. -/
theorem blocks_append {k : Nat} {xs : List α} (h : xs.length = n * k) (l : Nat) (ys : List α) :
    blocks n (k + l) (xs ++ ys) = blocks n k xs ++ blocks n l ys := by
  induction k generalizing xs with
  | zero =>
    obtain rfl := List.eq_nil_of_length_eq_zero h
    rw [Nat.zero_add]
    rfl
  | succ k ih =>
    rw [Nat.mul_succ] at h
    have hhead : ∀ j : Fin n, (xs ++ ys).getD j.val default = xs.getD j.val default := by
      intro j
      rw [List.getD_eq_getElem?_getD, List.getElem?_append_left (by omega),
        List.getD_eq_getElem?_getD]
    have htail : (xs ++ ys).drop n = xs.drop n ++ ys := List.drop_append_of_le_length (by omega)
    rw [show k + 1 + l = k + l + 1 by omega, blocks, htail,
      ih (by rw [List.length_drop]; omega), blocks, List.cons_append]
    simp only [hhead]

omit [Inhabited α] in
theorem unblocks_append (as bs : List (Vector α n)) :
    unblocks (as ++ bs) = unblocks as ++ unblocks bs := List.flatMap_append

end Blocks

/-! ## Quotas -/

variable (w : α → Nat)

/-- The weight of a sequence of items. -/
def weight (xs : List α) : Nat := (xs.map w).sum

@[simp] theorem weight_nil : weight w [] = 0 := rfl

@[simp] theorem weight_cons (x : α) (xs : List α) :
    weight w (x :: xs) = w x + weight w xs := by
  simp [weight]

@[simp] theorem weight_append (xs ys : List α) :
    weight w (xs ++ ys) = weight w xs + weight w ys := by
  simp [weight]

theorem weight_eq_zero {xs : List α} (h : weight w xs = 0) : ∀ x ∈ xs, w x = 0 := by
  induction xs with
  | nil => simp
  | cons x xs ih =>
    rw [weight_cons, Nat.add_eq_zero_iff] at h
    intro y hy
    rcases List.mem_cons.mp hy with rfl | hy
    · exact h.1
    · exact ih h.2 y hy

theorem weight_take_le (xs : List α) (k : Nat) : weight w (xs.take k) ≤ weight w xs := by
  have := weight_append w (xs.take k) (xs.drop k)
  rw [List.take_append_drop] at this
  omega

/-- The weight is the length of the contents when every item weighs what it
contributes. -/
theorem length_flatMap {β : Type u} (f : α → List β) (h : ∀ x, (f x).length = w x)
    (xs : List α) : (xs.flatMap f).length = weight w xs := by
  induction xs with
  | nil => rfl
  | cons x xs ih => simp [h, ih]

/-- After `xs` the quota is not reached, and `x` reaches it. -/
def Reaches (q : Nat) (xs : List α) (x : α) : Prop :=
  weight w xs < q ∧ q ≤ weight w xs + w x

/-- No item outweighs what is left of the quota when it is taken. -/
def Fits (q : Nat) (xs : List α) : Prop :=
  ∀ k < xs.length, weight w (xs.take k) < q → weight w (xs.take (k + 1)) ≤ q

instance (q : Nat) (xs : List α) : Decidable (Fits w q xs) :=
  inferInstanceAs (Decidable (∀ k < xs.length, _ → _))

variable {w}

private theorem take_succ_length (xs rs : List α) (x : α) :
    (xs ++ x :: rs).take (xs.length + 1) = xs ++ [x] := by
  rw [List.take_append, List.take_of_length_le (by omega)]
  simp

/-- The item that reaches the quota is determined by the sequence. -/
theorem reaches_unique {q : Nat} {xs ys rs ss : List α} {x y : α}
    (hx : Reaches w q xs x) (hy : Reaches w q ys y) (h : xs ++ x :: rs = ys ++ y :: ss) :
    xs = ys ∧ x = y ∧ rs = ss := by
  -- a longer prefix contains the item that reached the quota
  have hle : ∀ {xs ys rs ss : List α} {x y : α}, Reaches w q xs x → Reaches w q ys y →
      xs ++ x :: rs = ys ++ y :: ss → ys.length ≤ xs.length := by
    intro xs ys rs ss x y hx hy h
    by_contra hlt
    have htake : ys.take (xs.length + 1) = xs ++ [x] := by
      have hcons := congrArg (List.take (xs.length + 1)) h
      rw [take_succ_length, List.take_append_of_le_length (by omega)] at hcons
      exact hcons.symm
    have hweight := weight_take_le w ys (xs.length + 1)
    rw [htake, weight_append, weight_cons, weight_nil] at hweight
    have hreach := hx.2
    have hbelow := hy.1
    omega
  have hlen : xs.length = ys.length := Nat.le_antisymm (hle hy hx h.symm) (hle hx hy h)
  obtain ⟨hxs, htail⟩ := List.append_inj h hlen
  obtain ⟨hhead, hrest⟩ := List.cons.inj htail
  exact ⟨hxs, hhead, hrest⟩

/-- A sequence that stays below the quota fits. -/
theorem fits_of_lt {q : Nat} {xs : List α} (h : weight w xs < q) : Fits w q xs := by
  intro k _ _
  have := weight_take_le w xs (k + 1)
  omega

/-- When the quota is reached, the sequence fits exactly when it is met. -/
theorem fits_iff_of_reaches {q : Nat} {xs rs : List α} {x : α} (h : Reaches w q xs x) :
    Fits w q (xs ++ x :: rs) ↔ weight w xs + w x ≤ q := by
  have hat := take_succ_length xs rs x
  constructor
  · intro hfits
    have := hfits xs.length (by simp)
    rw [List.take_left, hat] at this
    simpa using this h.1
  · intro hle k hk hbelow
    rcases Nat.lt_trichotomy k xs.length with hlt | heq | hgt
    · rw [List.take_append_of_le_length (by omega)]
      have := weight_take_le w xs (k + 1)
      have := h.1
      omega
    · rw [heq, hat]
      simpa using hle
    · -- past the item that reached the quota nothing is below it
      exfalso
      have hprefix : (xs ++ x :: rs).take (xs.length + 1) =
          ((xs ++ x :: rs).take k).take (xs.length + 1) := by
        rw [List.take_take, Nat.min_eq_left (by omega)]
      have hweight := weight_take_le w ((xs ++ x :: rs).take k) (xs.length + 1)
      rw [← hprefix, hat, weight_append, weight_cons, weight_nil] at hweight
      have := h.2
      omega

end Chunks
