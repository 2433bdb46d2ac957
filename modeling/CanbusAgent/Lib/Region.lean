import Mathlib.Data.List.Basic

/-!
# Memory behind a pointer, with a log of the accesses

A C function that gets a pointer may touch any offset from it.  `Region` is the
memory that the pointer leads to: the cell at every offset, and the spans that
were loaded and stored so far.  The cells form a total function, so an access
past the end of the object is not cut off: it shows up in the log, and a bound
on the accesses is a statement about the log.

`slice` and `overlay` are the two operations on the cells alone.  The lemmas
say how they compose; `memcpy`, `memmove` and single stores are `Region.load`
followed by `Region.store`.
-/

universe u

/-- `len` consecutive cells from offset `off`. -/
structure Span where
  off : Nat
  len : Nat
deriving DecidableEq, Repr

namespace Span

/-- Every cell of the span has an offset below `n`. -/
def Below (n : Nat) (s : Span) : Prop := ∀ i, s.off ≤ i → i < s.off + s.len → i < n

theorem below_iff {n : Nat} {s : Span} : s.Below n ↔ s.len = 0 ∨ s.off + s.len ≤ n := by
  constructor
  · intro h
    rcases Nat.eq_zero_or_pos s.len with h0 | hpos
    · exact Or.inl h0
    · have := h (s.off + s.len - 1) (by omega) (by omega)
      exact Or.inr (by omega)
  · intro h i hlo hhi
    omega

instance (n : Nat) (s : Span) : Decidable (s.Below n) :=
  decidable_of_iff _ below_iff.symm

theorem Below.mono {m n : Nat} {s : Span} (h : s.Below m) (hmn : m ≤ n) : s.Below n :=
  fun i hlo hhi => Nat.lt_of_lt_of_le (h i hlo hhi) hmn

end Span

namespace Region

variable {α : Type u}

/-! ## Cells -/

/-- The `n` cells from offset `off`. -/
def slice (m : Nat → α) (off n : Nat) : List α :=
  (List.range n).map fun i => m (off + i)

/-- The cells after the list `bs` was put at offset `off`. -/
def overlay (m : Nat → α) (off : Nat) (bs : List α) : Nat → α :=
  fun i => if off ≤ i then bs.getD (i - off) (m i) else m i

@[simp] theorem slice_length (m : Nat → α) (off n : Nat) : (slice m off n).length = n := by
  simp [slice]

theorem slice_getElem (m : Nat → α) (off n : Nat) {i : Nat} (hi : i < (slice m off n).length) :
    (slice m off n)[i] = m (off + i) := by
  simp [slice]

/-- Two memories that agree on the cells of a slice have the same slice. -/
theorem slice_congr {m m' : Nat → α} {off off' n : Nat}
    (h : ∀ i, i < n → m (off + i) = m' (off' + i)) : slice m off n = slice m' off' n := by
  apply List.map_congr_left
  intro i hi
  exact h i (List.mem_range.mp hi)

/-- And the other way round. -/
theorem slice_eq_iff {m m' : Nat → α} {off off' n : Nat} :
    slice m off n = slice m' off' n ↔ ∀ i < n, m (off + i) = m' (off' + i) := by
  constructor
  · intro h i hi
    have hget := congrArg (fun l : List α => l[i]?) h
    simpa [slice, hi] using hget
  · exact slice_congr

theorem slice_add (m : Nat → α) (off a b : Nat) :
    slice m off (a + b) = slice m off a ++ slice m (off + a) b := by
  simp only [slice, List.range_add, List.map_append, List.map_map]
  congr 1
  apply List.map_congr_left
  intro i _
  simp [Nat.add_assoc]

theorem slice_succ (m : Nat → α) (off n : Nat) :
    slice m off (n + 1) = m off :: slice m (off + 1) n := by
  rw [Nat.add_comm, slice_add]
  simp [slice]

theorem slice_take (m : Nat → α) (off : Nat) {k n : Nat} (hk : k ≤ n) :
    (slice m off n).take k = slice m off k := by
  have hn : n = k + (n - k) := by omega
  rw [hn, slice_add, List.take_append_of_le_length (by simp), List.take_of_length_le (by simp)]

theorem overlay_of_lt (m : Nat → α) {off i : Nat} (bs : List α) (h : i < off) :
    overlay m off bs i = m i := by
  simp [overlay, Nat.not_le.mpr h]

theorem overlay_of_ge (m : Nat → α) {off i : Nat} (bs : List α) (h : off + bs.length ≤ i) :
    overlay m off bs i = m i := by
  have hoff : off ≤ i := by omega
  have hnone : bs[i - off]? = none := List.getElem?_eq_none (by omega)
  simp [overlay, hoff, List.getD_eq_getElem?_getD, hnone]

theorem overlay_add (m : Nat → α) (off : Nat) (bs : List α) {i : Nat} (h : i < bs.length) :
    overlay m off bs (off + i) = bs[i] := by
  simp [overlay, h]

@[simp] theorem overlay_nil (m : Nat → α) (off : Nat) : overlay m off [] = m := by
  funext i
  simp [overlay]

/-- What was put at an offset is read back there. -/
theorem slice_overlay_self (m : Nat → α) (off : Nat) (bs : List α) :
    slice (overlay m off bs) off bs.length = bs := by
  apply List.ext_getElem
  · simp
  · intro i _ hi
    rw [slice_getElem, overlay_add m off bs hi]

theorem slice_overlay_of_length (m : Nat → α) (off : Nat) {bs : List α} {n : Nat}
    (h : bs.length = n) : slice (overlay m off bs) off n = bs := by
  rw [← h, slice_overlay_self]

/-- A prefix of what was put at an offset. -/
theorem slice_overlay_take (m : Nat → α) (off : Nat) (bs : List α) {k : Nat}
    (h : k ≤ bs.length) : slice (overlay m off bs) off k = bs.take k := by
  rw [← slice_take _ _ h, slice_overlay_self]

/-- Two adjacent stores are one store. -/
theorem overlay_append (m : Nat → α) (off : Nat) (as bs : List α) :
    overlay (overlay m off as) (off + as.length) bs = overlay m off (as ++ bs) := by
  funext i
  rcases Nat.lt_or_ge i off with hlt | hge
  · rw [overlay_of_lt _ _ (by omega), overlay_of_lt _ _ hlt, overlay_of_lt _ _ hlt]
  rcases Nat.lt_or_ge i (off + as.length) with hlt | hge'
  · obtain ⟨j, rfl⟩ : ∃ j, i = off + j := ⟨i - off, by omega⟩
    rw [overlay_of_lt _ _ hlt, overlay_add m off as (by omega),
      overlay_add m off (as ++ bs) (by rw [List.length_append]; omega),
      List.getElem_append_left]
  rcases Nat.lt_or_ge i (off + as.length + bs.length) with hlt | hge''
  · obtain ⟨j, rfl⟩ : ∃ j, i = off + as.length + j := ⟨i - (off + as.length), by omega⟩
    rw [overlay_add _ _ bs (by omega), Nat.add_assoc,
      overlay_add m off (as ++ bs) (by rw [List.length_append]; omega),
      List.getElem_append_right (by omega)]
    congr 1
    omega
  · rw [overlay_of_ge _ _ (by omega), overlay_of_ge _ _ (by omega),
      overlay_of_ge _ _ (by rw [List.length_append]; omega)]

end Region

/-! ## The access log -/

/-- The memory behind a pointer. -/
structure Region (α : Type u) where
  /-- The cell at each offset from the pointer. -/
  bytes : Nat → α
  /-- The spans that were loaded, latest first. -/
  loads : List Span
  /-- The spans that were stored, latest first. -/
  stores : List Span

namespace Region

variable {α : Type u}

/-- Memory with given cells that nobody has touched yet. -/
def fresh (m : Nat → α) : Region α := ⟨m, [], []⟩

/-- Load `n` cells from offset `off`. -/
def load (r : Region α) (off n : Nat) : List α × Region α :=
  (slice r.bytes off n, { r with loads := ⟨off, n⟩ :: r.loads })

/-- Load the cell at offset `off`. -/
def loadAt (r : Region α) (off : Nat) : α × Region α :=
  (r.bytes off, { r with loads := ⟨off, 1⟩ :: r.loads })

/-- Store `bs` at offset `off`. -/
def store (r : Region α) (off : Nat) (bs : List α) : Region α :=
  { r with bytes := overlay r.bytes off bs, stores := ⟨off, bs.length⟩ :: r.stores }

/-- `memmove` inside one object: everything is loaded before anything is
stored, so the two spans may overlap. -/
def move (r : Region α) (dst src n : Nat) : Region α :=
  let (bs, r) := r.load src n
  r.store dst bs

@[simp] theorem load_fst (r : Region α) (off n : Nat) :
    (r.load off n).1 = slice r.bytes off n := rfl
@[simp] theorem load_bytes (r : Region α) (off n : Nat) :
    (r.load off n).2.bytes = r.bytes := rfl
@[simp] theorem load_loads (r : Region α) (off n : Nat) :
    (r.load off n).2.loads = ⟨off, n⟩ :: r.loads := rfl
@[simp] theorem load_stores (r : Region α) (off n : Nat) :
    (r.load off n).2.stores = r.stores := rfl
@[simp] theorem loadAt_fst (r : Region α) (off : Nat) : (r.loadAt off).1 = r.bytes off := rfl
@[simp] theorem loadAt_bytes (r : Region α) (off : Nat) : (r.loadAt off).2.bytes = r.bytes := rfl
@[simp] theorem store_bytes (r : Region α) (off : Nat) (bs : List α) :
    (r.store off bs).bytes = overlay r.bytes off bs := rfl
@[simp] theorem store_loads (r : Region α) (off : Nat) (bs : List α) :
    (r.store off bs).loads = r.loads := rfl
@[simp] theorem store_stores (r : Region α) (off : Nat) (bs : List α) :
    (r.store off bs).stores = ⟨off, bs.length⟩ :: r.stores := rfl
@[simp] theorem move_bytes (r : Region α) (dst src n : Nat) :
    (r.move dst src n).bytes = overlay r.bytes dst (slice r.bytes src n) := rfl
@[simp] theorem move_loads (r : Region α) (dst src n : Nat) :
    (r.move dst src n).loads = ⟨src, n⟩ :: r.loads := rfl
@[simp] theorem move_stores (r : Region α) (dst src n : Nat) :
    (r.move dst src n).stores = ⟨dst, n⟩ :: r.stores := by
  simp [move]

/-- Every load so far stayed below offset `n`. -/
def LoadsBelow (n : Nat) (r : Region α) : Prop := ∀ s ∈ r.loads, s.Below n

/-- Every store so far stayed below offset `n`. -/
def StoresBelow (n : Nat) (r : Region α) : Prop := ∀ s ∈ r.stores, s.Below n

instance (n : Nat) (r : Region α) : Decidable (r.LoadsBelow n) :=
  inferInstanceAs (Decidable (∀ s ∈ r.loads, s.Below n))

instance (n : Nat) (r : Region α) : Decidable (r.StoresBelow n) :=
  inferInstanceAs (Decidable (∀ s ∈ r.stores, s.Below n))

theorem StoresBelow.mono {m n : Nat} {r : Region α} (h : r.StoresBelow m) (hmn : m ≤ n) :
    r.StoresBelow n :=
  fun s hs => (h s hs).mono hmn

theorem loadsBelow_loadAt {n off : Nat} {r : Region α} :
    (r.loadAt off).2.LoadsBelow n ↔ off < n ∧ r.LoadsBelow n := by
  have hspan : (⟨off, 1⟩ : Span).Below n ↔ off < n := by
    rw [Span.below_iff]
    exact or_iff_right Nat.one_ne_zero
  exact List.forall_mem_cons.trans (and_congr_left' hspan)

theorem storesBelow_store {n off : Nat} {r : Region α} {bs : List α} :
    (r.store off bs).StoresBelow n ↔
      (bs.length = 0 ∨ off + bs.length ≤ n) ∧ r.StoresBelow n := by
  simp [StoresBelow, Span.below_iff]

end Region
