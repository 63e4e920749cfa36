import CHttp.Runs

/-! The C machine as far as the library leans on it: ways a call can fail,
32-bit `int`, bytes, and malloc'd blocks whose cells are unknown until written. -/
namespace CHttp

/-- How a call can go wrong. An assertion carries the expression it tests. -/
inductive Fault where
  | assertion (expr : String)
  | outOfBounds
  | nullPointer
  | allocation
  | indeterminate
  deriving DecidableEq, Repr

abbrev Res := Except Fault

/-- The macro `assert`, and `RBL_ASSERT`, which logs and then asserts. -/
def cAssert (c : Bool) (expr : String) : Res Unit :=
  if c then .ok () else .error (.assertion expr)

@[simp] theorem cAssert_true (expr : String) : cAssert true expr = .ok () := rfl

@[simp] theorem cAssert_false (expr : String) :
    cAssert false expr = .error (.assertion expr) := rfl

theorem cAssert_bind_eq_ok {α : Type} (c : Bool) (expr : String) (f : Unit → Res α) (r : α) :
    (cAssert c expr >>= f) = .ok r ↔ c = true ∧ f () = .ok r := by
  cases c <;> simp

abbrev Bytes := List UInt8

/-- The bytes of a C string literal. -/
def ascii (s : String) : Bytes := s.toList.map fun c => UInt8.ofNat c.toNat

def crlf : Bytes := [13, 10]

/-- The conversion `%d`. -/
def fmtD (z : ℤ) : Bytes :=
  (if z < 0 then [45] else []) ++ (Nat.toDigits 10 z.natAbs).map fun c => UInt8.ofNat c.toNat

/-- A value of type `int`: arithmetic wraps at 32 bits. -/
def cInt (z : ℤ) : ℤ := z.bmod (2^32)

theorem cInt_of_range (z : ℤ) (hl : -2^31 ≤ z) (hu : z < 2^31) : cInt z = z :=
  Int.bmod_eq_of_le (by simpa using hl) (by simpa using hu)

theorem cInt_natCast (n : ℕ) (h : n < 2^31) : cInt n = n :=
  cInt_of_range n (by omega) (by omega)

theorem cInt_add_left (x y : ℤ) : cInt (cInt x+y) = cInt (x+y) :=
  Int.bmod_add_bmod

theorem cInt_lt (z : ℤ) : cInt z < 2^31 := by
  have h := Int.bmod_lt (x := z) (m := 2^32) (by decide)
  simpa [cInt] using h

theorem le_cInt (z : ℤ) : -2^31 ≤ cInt z := by
  have h := Int.le_bmod (x := z) (m := 2^32) (by decide)
  simpa [cInt] using h

theorem cInt_wrap (z : ℤ) (hl : 2^31 ≤ z) (hu : z < 2^32) : cInt z = z-2^32 := by
  rw [cInt, Int.bmod_def]
  split_ifs <;> omega

/-- One byte of a malloc'd block; `none` is a byte nothing was written to. -/
abbrev Cell := Option UInt8

/-- `memcpy` of `cells` into a block at `i`. -/
def memWrite (mem : List Cell) (i : ℕ) (cells : List Cell) : Res (List Cell) :=
  if i+cells.length ≤ mem.length then
    .ok (mem.take i ++ cells ++ mem.drop (i+cells.length))
  else .error .outOfBounds

theorem memWrite_ok (mem : List Cell) (i : ℕ) (cells : List Cell)
    (h : i+cells.length ≤ mem.length) :
    memWrite mem i cells = .ok (mem.take i ++ cells ++ mem.drop (i+cells.length)) :=
  if_pos h

/-- A write inside the block changes the cells it covers and no others. -/
theorem memWrite_spec (mem : List Cell) (i : ℕ) (cells : List Cell)
    (h : i+cells.length ≤ mem.length) :
    ∃ mem', memWrite mem i cells = .ok mem' ∧ mem'.length = mem.length ∧
      ∀ j, mem'[j]? = if i ≤ j ∧ j < i+cells.length then cells[j-i]? else mem[j]? := by
  refine ⟨_, memWrite_ok mem i cells h, ?_, fun j => ?_⟩
  · simp only [List.length_append, List.length_take, List.length_drop]
    omega
  · have hi : (mem.take i).length = i := by rw [List.length_take]; omega
    by_cases hl : j < i
    · rw [List.append_assoc, List.getElem?_append_left (by omega), List.getElem?_take_of_lt hl,
        if_neg (by omega)]
    · by_cases hu : j < i+cells.length
      · rw [List.append_assoc, List.getElem?_append_right (by omega), hi,
          List.getElem?_append_left (by omega), if_pos (by omega)]
      · rw [List.getElem?_append_right (by rw [List.length_append]; omega), List.length_append, hi,
          List.getElem?_drop, if_neg (by omega)]
        congr 1
        omega

/-- An array given a new size keeps what fits; the elements gained are unwritten. -/
def arrayRealloc {α : Type} (a : List (Option α)) (n : ℕ) : List (Option α) :=
  a.take n ++ List.replicate (n-a.length) none

@[simp] theorem length_arrayRealloc {α : Type} (a : List (Option α)) (n : ℕ) :
    (arrayRealloc a n).length = n := by
  simp only [arrayRealloc, List.length_append, List.length_take, List.length_replicate]
  omega

theorem take_arrayRealloc {α : Type} (a : List (Option α)) (n k : ℕ) (hn : k ≤ n)
    (ha : k ≤ a.length) : (arrayRealloc a n).take k = a.take k := by
  rw [arrayRealloc, List.take_append_of_le_length (by rw [List.length_take]; omega), List.take_take,
    Nat.min_eq_left hn]

/-- A block given a new size keeps what fits; the bytes gained are unwritten. -/
def realloc (mem : List Cell) (n : ℕ) : List Cell :=
  mem.take n ++ List.replicate (n-mem.length) none

@[simp] theorem length_realloc (mem : List Cell) (n : ℕ) : (realloc mem n).length = n :=
  length_arrayRealloc mem n

theorem take_realloc (mem : List Cell) (n k : ℕ) (hn : k ≤ n) (hm : k ≤ mem.length) :
    (realloc mem n).take k = mem.take k :=
  take_arrayRealloc mem n k hn hm

/-- An element of an array; one that was never set is `none`. -/
def arrayRead {α : Type} (a : List (Option α)) (i : ℕ) : Res α :=
  match a[i]? with
  | none => .error .outOfBounds
  | some none => .error .indeterminate
  | some (some x) => .ok x

def arrayWrite {α : Type} (a : List (Option α)) (i : ℕ) (x : α) : Res (List (Option α)) :=
  if i < a.length then .ok (a.set i (some x)) else .error .outOfBounds

theorem arrayRead_ok {α : Type} (a : List (Option α)) (i : ℕ) (x : α)
    (h : a[i]? = some (some x)) : arrayRead a i = .ok x := by
  rw [arrayRead, h]

theorem arrayWrite_ok {α : Type} (a : List (Option α)) (i : ℕ) (x : α) (h : i < a.length) :
    arrayWrite a i x = .ok (a.set i (some x)) :=
  if_pos h

/-- What a C reader sees of a byte string: everything before the first NUL. -/
def cstr (b : Bytes) : Bytes := b.takeWhile (· ≠ 0)

theorem cstr_eq_self_iff (b : Bytes) : cstr b = b ↔ 0 ∉ b := by
  simp only [cstr, List.takeWhile_eq_self_iff, decide_eq_true_eq]
  exact ⟨fun h hz => h 0 hz rfl, fun h x hx he => h (he ▸ hx)⟩

/-- The C string that starts at a cell: read up to the first NUL, which must come
before an unwritten byte and before the end of the block. -/
def readCstr : List Cell → Res Bytes
  | [] => .error .outOfBounds
  | none :: _ => .error .indeterminate
  | some b :: rest => if b = 0 then .ok [] else do
    let s ← readCstr rest
    .ok (b :: s)

/-- Written bytes, then a NUL: the string ends there at the latest. -/
theorem readCstr_append_nul (b : Bytes) (rest : List Cell) :
    readCstr (b.map some ++ some 0 :: rest) = .ok (cstr b) := by
  induction b with
  | nil => rfl
  | cons x b ih =>
    by_cases hx : x = 0
    · simp [readCstr, cstr, hx]
    · simp only [List.map_cons, List.cons_append, readCstr, if_neg hx, ih, ok_bind]
      simp [cstr, hx]

theorem cstr_length_le (b : Bytes) : (cstr b).length ≤ b.length :=
  (List.takeWhile_sublist _).length_le

end CHttp
