/-!
# Breakdowns

An index outside a sequence, a cut outside it and a negative number of repetitions break the engine down:
the computation does not go on, and nothing is tidied up, until somebody recovers. The functions of this
file are the ones that can break down. Everything that indexes or cuts is written with them, so that whether
an index can be wrong is a question about the definitions.
-/

set_option autoImplicit false

namespace Primer

/-- Why the engine broke down. -/
inductive Breakdown where
  /-- An index outside a sequence of that length. -/
  | index (i : Int) (length : Nat)
  /-- A cut whose end lies outside a sequence of that length. -/
  | cutTo (stop : Int) (length : Nat)
  /-- A cut whose start lies outside a sequence of that length. -/
  | cutFrom (start : Int) (length : Nat)
  /-- A negative number of repetitions. -/
  | repetition
  deriving Repr, DecidableEq, Inhabited

/-- A breakdown in words. Of a negative place the length is not told. -/
def Breakdown.text : Breakdown → String
  | .index i n =>
    "runtime error: index out of range [" ++ toString i ++ "]" ++
      (if i < 0 then "" else " with length " ++ toString n)
  | .cutTo i n =>
    "runtime error: slice bounds out of range [:" ++ toString i ++ "]" ++
      (if i < 0 then "" else " with length " ++ toString n)
  | .cutFrom i n =>
    "runtime error: slice bounds out of range [" ++ toString i ++ ":" ++
      (if i < 0 then "" else toString n) ++ "]"
  | .repetition => "strings: negative Repeat count"

variable {α : Type}

/-- The entry of a sequence at an index. -/
def entryAt (xs : Array α) (i : Int) : Except Breakdown α :=
  if i < 0 then .error (.index i xs.size)
  else
    match xs[i.toNat]? with
    | some x => .ok x
    | none => .error (.index i xs.size)

/-- Puts an entry into a sequence at an index. -/
def putAt (xs : Array α) (i : Int) (x : α) : Except Breakdown (Array α) :=
  if 0 ≤ i ∧ i < xs.size then .ok (xs.setIfInBounds i.toNat x) else .error (.index i xs.size)

/-- A sequence up to a place. -/
def keptTo (xs : Array α) (stop : Int) : Except Breakdown (Array α) :=
  if 0 ≤ stop ∧ stop ≤ xs.size then .ok (xs.extract 0 stop.toNat) else .error (.cutTo stop xs.size)

/-- A text up to a place. -/
def cutTo (cs : List Char) (stop : Int) : Except Breakdown (List Char) :=
  if 0 ≤ stop ∧ stop ≤ cs.length then .ok (cs.take stop.toNat) else .error (.cutTo stop cs.length)

/-- A text from a place on. -/
def cutFrom (cs : List Char) (start : Int) : Except Breakdown (List Char) :=
  if 0 ≤ start ∧ start ≤ cs.length then .ok (cs.drop start.toNat) else .error (.cutFrom start cs.length)

/-- A character so many times. -/
def repeated (n : Int) (c : Char) : Except Breakdown (List Char) :=
  if n < 0 then .error .repetition else .ok (List.replicate n.toNat c)

/-! ## Where nothing breaks down -/

/-- Inside a sequence an index finds its entry. -/
theorem entryAt_eq {xs : Array α} {i : Nat} {x : α} (h : xs[i]? = some x) : entryAt xs i = .ok x := by
  have hi : ¬ (i : Int) < 0 := by omega
  simp only [entryAt, if_neg hi, Int.toNat_natCast, h]

/-- Inside a sequence an entry can be put at an index. -/
theorem putAt_eq {xs : Array α} {i : Nat} (h : i < xs.size) (x : α) :
    putAt xs i x = .ok (xs.setIfInBounds i x) := by
  have hi : (0 : Int) ≤ i ∧ (i : Int) < xs.size := by omega
  simp only [putAt, if_pos hi, Int.toNat_natCast]

/-- A sequence can be cut at a place that is not behind its end. -/
theorem keptTo_eq {xs : Array α} {n : Nat} (h : n ≤ xs.size) : keptTo xs n = .ok (xs.extract 0 n) := by
  have hn : (0 : Int) ≤ n ∧ (n : Int) ≤ xs.size := by omega
  simp only [keptTo, if_pos hn, Int.toNat_natCast]

/-- A text can be cut at a place that is not behind its end, and what stands before it is kept. -/
theorem cutTo_eq {cs : List Char} {n : Int} (h : 0 ≤ n) (hn : n ≤ cs.length) :
    cutTo cs n = .ok (cs.take n.toNat) := if_pos ⟨h, hn⟩

/-- A text can be cut at a place that is not behind its end, and what stands behind it is kept. -/
theorem cutFrom_eq {cs : List Char} {n : Int} (h : 0 ≤ n) (hn : n ≤ cs.length) :
    cutFrom cs n = .ok (cs.drop n.toNat) := if_pos ⟨h, hn⟩

/-- A number that is not negative is a number of repetitions. -/
theorem repeated_eq {n : Int} (h : 0 ≤ n) (c : Char) : repeated n c = .ok (List.replicate n.toNat c) :=
  if_neg (Int.not_lt.mpr h)

end Primer
