import Primer.Proofs.Array.Length
import Primer.Proofs.Embedding.Taking
import Primer.Proofs.Number.Nearest

/-!
# Integers that are passed on

A number that is passed on as an integer has to be one, and must not be below zero where there is no sign. That it lies
in the range of the integers that are wanted is not looked at. It is made an integer of that range anyway, so the
receiver gets the number itself exactly if the range holds it (`IntegerFormat.wrap_eq_iff`), and another number
otherwise.

The same is said of every number that lies in the arguments of a call or in what is written to a field, at any depth of
lists (`Memory.Arrives`, `integers_kept_in_range`).
-/

set_option autoImplicit false

namespace Primer

namespace Number

/-! ## Numbers that are integers -/

variable {x : Float} {k : Int}

/-- The rational that a finite number is. -/
def rational (x : Float) : ℚ := if isNegative x then -(magnitude x).value else (magnitude x).value

/-- A number is an integer: it is finite and equal to it. -/
def IsInteger (x : Float) (k : Int) : Prop := isFinite x = true ∧ rational x = k

/-- A size is a natural if nothing is left of its mantissa behind the point, and it is its whole part then. -/
theorem value_eq_natCast_iff (m : Magnitude) (n : Nat) : m.value = n ↔
    (m.exponent < 0 → m.mantissa % Nat.pow 2 (-m.exponent).toNat = 0) ∧ n = scale m.mantissa m.exponent := by
  unfold Magnitude.value scale
  by_cases hexponent : 0 ≤ m.exponent
  · have hpower : (2 : ℚ) ^ m.exponent = (Nat.pow 2 m.exponent.toNat : Nat) := by
      rw [Nat.pow_eq, Nat.cast_pow, ← zpow_natCast, Int.toNat_of_nonneg hexponent, Nat.cast_ofNat]
    rw [if_pos hexponent, hpower, ← Nat.cast_mul, Nat.cast_inj, eq_comm]
    simp [Int.not_lt.mpr hexponent]
  · have hneg : m.exponent < 0 := Int.not_le.mp hexponent
    have hpos : 0 < Nat.pow 2 (-m.exponent).toNat := Nat.two_pow_pos _
    have hpower : (2 : ℚ) ^ m.exponent = ((Nat.pow 2 (-m.exponent).toNat : Nat) : ℚ)⁻¹ := by
      rw [Nat.pow_eq, Nat.cast_pow, ← zpow_natCast, Int.toNat_of_nonneg (by omega), Nat.cast_ofNat, ← zpow_neg, neg_neg]
    rw [if_neg hexponent, hpower, ← div_eq_mul_inv, div_eq_iff (by exact_mod_cast hpos.ne'), ← Nat.cast_mul,
      Nat.cast_inj]
    generalize Nat.pow 2 (-m.exponent).toNat = d at hpos ⊢
    constructor
    · intro h
      rw [h, Nat.mul_mod_left, Nat.mul_div_cancel _ hpos]
      exact ⟨fun _ => rfl, rfl⟩
    · rintro ⟨hwhole, rfl⟩
      exact (Nat.div_mul_cancel (Nat.dvd_of_mod_eq_zero (hwhole hneg))).symm

/-- A magnitude is not negative. -/
theorem value_nonneg (m : Magnitude) : 0 ≤ m.value := by
  unfold Magnitude.value
  positivity

/-- The integer that a number is is found. -/
theorem toInt?_eq_some_iff_isInteger : toInt? x = some k ↔ IsInteger x k := by
  have hvalue := value_eq_natCast_iff (magnitude x)
  have hnonneg := value_nonneg (magnitude x)
  rw [toInt?_eq_some_iff, hasFraction_eq_false_iff]
  unfold IsInteger rational
  apply and_congr_right
  intro _
  constructor
  · rintro ⟨hwhole, rfl⟩
    have hsize := (hvalue (wholePart x)).mpr ⟨hwhole, rfl⟩
    rw [hsize]
    split <;> push_cast <;> rfl
  · intro h
    -- the size of the integer is a natural, so it is the whole part
    have hsize : (magnitude x).value = (k.natAbs : Nat) ∧ k = if isNegative x then -(k.natAbs : Int) else k.natAbs := by
      split at h
      · have hk : k ≤ 0 := by
          have : (k : ℚ) ≤ 0 := by linarith
          exact_mod_cast this
        have habs : (k.natAbs : Int) = -k := by omega
        refine ⟨?_, by rw [if_pos ‹_›]; omega⟩
        rw [← Int.cast_natCast, habs, Int.cast_neg]
        linarith
      · have hk : 0 ≤ k := by
          have : (0 : ℚ) ≤ k := by linarith
          exact_mod_cast this
        have habs : (k.natAbs : Int) = k := by omega
        refine ⟨?_, by rw [if_neg ‹_›]; omega⟩
        rw [← Int.cast_natCast, habs]
        exact h
    obtain ⟨hwhole, hpart⟩ := (hvalue k.natAbs).mp hsize.1
    refine ⟨hwhole, ?_⟩
    have hpart : k.natAbs = wholePart x := hpart
    rw [← hpart]
    exact hsize.2

end Number

/-! ## Integers of a format -/

namespace Number

variable {bits : Nat} {n : Int}

/-- What loses its upper bits is in range. -/
theorem wrapSigned_range (bits : Nat) (n : Int) :
    -2 ^ bits ≤ 2 * wrapSigned bits n ∧ 2 * wrapSigned bits n < 2 ^ bits := by
  have hpos : 0 < Nat.pow 2 bits := Nat.two_pow_pos bits
  have hcast : ((Nat.pow 2 bits : Nat) : Int) = 2 ^ bits := by simp
  have hlow := Int.le_bmod (x := if fitsWord n then n else leastWord) hpos
  have hhigh := Int.bmod_lt (x := if fitsWord n then n else leastWord) hpos
  change _ ≤ wrapSigned bits n at hlow
  change wrapSigned bits n < _ at hhigh
  rw [hcast] at hlow hhigh
  omega

/-- It is the integer itself exactly if this is in range. -/
theorem wrapSigned_eq_iff (hbits : bits ≤ 64) : wrapSigned bits n = n ↔ -2 ^ bits ≤ 2 * n ∧ 2 * n < 2 ^ bits := by
  constructor
  · intro h
    rw [← h]
    exact wrapSigned_range bits n
  · rintro ⟨hlow, hhigh⟩
    have hbound : (2 : Int) ^ bits ≤ 2 ^ 64 := pow_le_pow_right₀ (by decide) hbits
    have hcast : ((Nat.pow 2 bits : Nat) : Int) = 2 ^ bits := by simp
    have hword : fitsWord n = true := by
      unfold fitsWord leastWord
      simp only [Bool.and_eq_true, decide_eq_true_eq]
      omega
    unfold wrapSigned
    rw [if_pos hword]
    apply Int.bmod_eq_of_le_mul_two
    · rw [hcast]
      omega
    · rw [hcast]
      omega

/-- A wrapped number fits the width. -/
theorem wrapUnsigned_lt (bits n : Nat) : wrapUnsigned bits n < 2 ^ bits := Nat.mod_lt _ (Nat.two_pow_pos bits)

/-- Wrapping leaves exactly the numbers that fit the width. -/
theorem wrapUnsigned_eq_iff {n : Nat} (hbits : bits ≤ 64) : wrapUnsigned bits n = n ↔ n < 2 ^ bits := by
  constructor
  · intro h
    rw [← h]
    exact wrapUnsigned_lt bits n
  · intro h
    have hword : n < Nat.pow 2 64 := h.trans_le (Nat.pow_le_pow_right (by decide) hbits)
    unfold wrapUnsigned
    rw [if_pos hword]
    exact Nat.mod_eq_of_lt h

end Number

namespace IntegerFormat

variable {f : IntegerFormat} {k : Int}

/-- Whether an integer is one of a format. With a sign, half of them are below zero. -/
def Holds (f : IntegerFormat) (n : Int) : Prop :=
  if f.signed then -2 ^ f.bits ≤ 2 * n ∧ 2 * n < 2 ^ f.bits else 0 ≤ n ∧ n < 2 ^ f.bits

/-- Whether an integer has a sign that the format has. -/
def Admits (f : IntegerFormat) (n : Int) : Prop := f.signed = true ∨ 0 ≤ n

/-- The integer of a format that an integer is made. -/
def wrap (f : IntegerFormat) (k : Int) : Int :=
  if f.signed then Number.wrapSigned f.bits k else Number.wrapUnsigned f.bits k.toNat

/-- A format holds what it wraps. -/
theorem holds_wrap (f : IntegerFormat) (k : Int) : f.Holds (f.wrap k) := by
  unfold Holds wrap
  split
  · exact Number.wrapSigned_range f.bits k
  · exact ⟨Int.natCast_nonneg _, by exact_mod_cast Number.wrapUnsigned_lt f.bits k.toNat⟩

/-- An integer stays what it is exactly if the format holds it. -/
theorem wrap_eq_iff (hbits : f.bits ≤ 64) (hsign : f.Admits k) : f.wrap k = k ↔ f.Holds k := by
  unfold wrap Holds
  split
  · exact Number.wrapSigned_eq_iff hbits
  · have hnonneg : 0 ≤ k := hsign.resolve_left ‹_›
    obtain ⟨j, rfl⟩ := Int.eq_ofNat_of_zero_le hnonneg
    rw [Int.toNat_natCast, Nat.cast_inj, Number.wrapUnsigned_eq_iff hbits, and_iff_right hnonneg]
    exact_mod_cast Iff.rfl

/-- A format admits what it holds. -/
theorem Holds.admits (h : f.Holds k) : f.Admits k := by
  unfold Holds at h
  split at h
  · exact .inl ‹_›
  · exact .inr h.1

/-- For a number that is an integer, an integer of a format is received. They are the same exactly if the format holds
the number. -/
def Receives (f : IntegerFormat) (x : Float) (item : Native) : Prop :=
  ∃ n k, item = .integer n ∧ f.Holds n ∧ Number.IsInteger x k ∧ (n = k ↔ f.Holds k)

end IntegerFormat

namespace Memory

variable {m : Memory} {f : IntegerFormat} {x : Float} {v : Value} {item : Native}

/-- What is taken as an integer is a number that is one, with a sign that the format has. -/
theorem takeInteger_eq_ok_iff : m.takeInteger f v = .ok item ↔
    ∃ x k, v = .number x ∧ Number.IsInteger x k ∧ f.Admits k ∧ item = .integer (f.wrap k) := by
  simp only [← Number.toInt?_eq_some_iff_isInteger]
  unfold takeInteger IntegerFormat.Admits IntegerFormat.wrap
  cases v
  case number x =>
    cases hk : Number.toInt? x with
    | none => simp [hk, mismatch]
    | some k =>
      by_cases hsigned : f.signed = true
      · simp [hk, hsigned, eq_comm]
      · by_cases hneg : k < 0
        · simp [hk, hsigned, hneg, mismatch]
        · simp [hk, hsigned, hneg, Int.not_lt.mp hneg, eq_comm]
  all_goals simp [mismatch]

/-- An integer that is taken is received. -/
theorem receives_of_takeInteger (hbits : f.bits ≤ 64) (h : m.takeInteger f (.number x) = .ok item) :
    f.Receives x item := by
  obtain ⟨_, k, hx, hk, hsign, rfl⟩ := takeInteger_eq_ok_iff.mp h
  cases hx
  exact ⟨f.wrap k, k, rfl, f.holds_wrap k, hk, f.wrap_eq_iff hbits hsign⟩

/-! ## Integers in what is passed on -/

/-- A number stands in a value where an integer is wanted, and something in what is received stands in its place. -/
inductive Arrives (m : Memory) : NativeType → Value → Native → IntegerFormat → Float → Native → Prop where
  | here (f : IntegerFormat) (x : Float) (item : Native) : Arrives m (.integer f) (.number x) item f x item
  | element {t : NativeType} {a : ArrayRef} {items : List Native} {i : Nat} {v : Value} {item part : Native}
    {f : IntegerFormat} {x : Float} (hv : (m.values a)[i]? = some v) (hitem : items[i]? = some item)
    (h : Arrives m t v item f x part) : Arrives m (.list t) (.array a) (.list items) f x part

/-- An integer that arrives inside a native value is received. -/
theorem Arrives.receives {t : NativeType} {part : Native} (h : m.Arrives t v item f x part) (hbits : f.bits ≤ 64)
    (htake : m.take t v = .ok item) : f.Receives x part := by
  induction h with
  | here f x item => exact receives_of_takeInteger hbits htake
  | element hv hitem _ ih =>
    obtain ⟨a, items, ha, hitems, hlist⟩ := take_list_eq_ok_iff.mp htake
    cases ha
    cases hlist
    have helement := forall₂_getElem? hitems hv hitem
    exact ih hbits helement

end Memory

/-- The arguments of a call that is not refused are taken one by one, each as what the function wants there. -/
theorem Signature.take_of_takeAll {sig : Signature} {m : Memory} {tag : String} {args : List Value}
    {items : List Native} (h : sig.takeAll m tag args = .ok items) : args.length = items.length ∧
      ∀ (i : Nat) v item, args[i]? = some v → items[i]? = some item → m.take (sig.typeAt i) v = .ok item := by
  obtain ⟨g, hg, hall⟩ : ∃ g : Value × Nat → Except String Native,
      (∀ v i item, g (v, i) = .ok item → m.take (sig.typeAt i) v = .ok item) ∧ args.zipIdx.mapM g = .ok items := by
    unfold takeAll at h
    dsimp only at h
    split at h
    all_goals
      split at h
      · cases h
      · refine ⟨_, ?_, h⟩
        intro v i item hitem
        dsimp only at hitem
        split at hitem
        · cases hitem
          assumption
        · cases hitem
  have hitems := mapM_eq_ok_iff.mp hall
  refine ⟨by simpa using hitems.length_eq, ?_⟩
  intro i v item hv hitem
  have hindexed : args.zipIdx[i]? = some (v, i) := by
    rw [List.getElem?_zipIdx, hv, Option.map_some, Nat.zero_add]
  have htaken := forall₂_getElem? hitems hindexed hitem
  exact hg v i item htaken

/-- What is written to a field is found there; a field that is not there takes anything. -/
theorem Record.get_set (r : Record) (name : String) (v : Native) :
    (r.set name v).get name = v ∨ r.typeOf name = .any := by
  have hsame : (fun f : RecordField => decide (f.name = name)) ∘
      (fun f => if f.name = name then { f with value := v } else f) = fun f => decide (f.name = name) := by
    funext f
    dsimp only [Function.comp]
    split <;> simp_all
  unfold get set typeOf
  dsimp only
  rw [List.find?_map, hsame]
  cases hfound : r.fields.find? fun f => f.name = name with
  | none => exact .inr rfl
  | some f =>
    have hname : f.name = name := by simpa using List.find?_some hfound
    left
    simp [hname]

/-- What is written to a field that does not refuse it is taken as what the field wants. -/
theorem Catalog.take_of_writeOffered {s s' : Registry} {m m' : Memory} {ref : RecordRef} {name qualified : String}
    {w : Value} (h : writeOffered (.field ref name qualified) s m w = (.ok (), s', m')) :
    m.take ((s.records[ref]?.getD default).typeOf name) w = .ok ((s'.records[ref]?.getD default).get name) ∨
      (s.records[ref]?.getD default).typeOf name = .any := by
  unfold writeOffered at h
  dsimp only at h
  split at h
  · cases h
  · rename_i item hitem
    cases h
    rcases (s.records[ref]?.getD default).get_set name item with hget | hany
    · cases hrecord : s.records[ref]? with
      | none => exact .inr rfl
      | some r =>
        left
        have hlt : ref < s.records.size := (Array.getElem?_eq_some_iff.mp hrecord).1
        rw [hrecord] at hitem hget
        rw [hitem, Array.getElem?_setIfInBounds_self_of_lt hlt]
        exact congrArg Except.ok hget.symm
    · exact .inr hany

/-- A number that is passed on where an integer is wanted is refused unless it is an integer with a sign that is wanted.
Otherwise an integer of the format is received, and this is the number itself exactly if the format holds the number. So
it is for a number alone, for every number in the arguments of a call, and for every number in what is written to a
field. -/
theorem integers_kept_in_range (f : IntegerFormat) (hbits : f.bits ≤ 64) :
    (∀ (m : Memory) (x : Float),
      ((∃ item, m.take (.integer f) (.number x) = .ok item) ↔ ∃ k, Number.IsInteger x k ∧ f.Admits k) ∧
      ∀ item, m.take (.integer f) (.number x) = .ok item → f.Receives x item) ∧
    (∀ (sig : Signature) (m : Memory) (tag : String) (args : List Value) (items : List Native),
      sig.takeAll m tag args = .ok items → args.length = items.length ∧
        ∀ (i : Nat) v item x part, args[i]? = some v → items[i]? = some item →
          m.Arrives (sig.typeAt i) v item f x part → f.Receives x part) ∧
    ∀ (ref : RecordRef) (name qualified : String) (s s' : Registry) (m m' : Memory) (w : Value) (x : Float)
      (part : Native), Catalog.writeOffered (.field ref name qualified) s m w = (.ok (), s', m') →
        m.Arrives ((s.records[ref]?.getD default).typeOf name) w ((s'.records[ref]?.getD default).get name) f x part →
        f.Receives x part := by
  refine ⟨?_, ?_, ?_⟩
  · intro m x
    refine ⟨⟨?_, ?_⟩, ?_⟩
    · rintro ⟨item, h⟩
      obtain ⟨_, k, hx, hk, hsign, -⟩ := Memory.takeInteger_eq_ok_iff.mp h
      cases hx
      exact ⟨k, hk, hsign⟩
    · rintro ⟨k, hk, hsign⟩
      exact ⟨_, Memory.takeInteger_eq_ok_iff.mpr ⟨x, k, rfl, hk, hsign, rfl⟩⟩
    · intro item h
      exact Memory.receives_of_takeInteger hbits h
  · intro sig m tag args items h
    obtain ⟨hlength, htake⟩ := Signature.take_of_takeAll h
    refine ⟨hlength, ?_⟩
    intro i v item x part hv hitem harrives
    exact harrives.receives hbits (htake i v item hv hitem)
  · intro ref name qualified s s' m m' w x part h harrives
    rcases Catalog.take_of_writeOffered h with htake | hany
    · exact harrives.receives hbits htake
    · rw [hany] at harrives
      cases harrives

/-- The number 7 in an array that a function of a list of small integers is called with, and 100 for a small field. -/
theorem small_integers_received :
    Memory.empty.take (.integer ⟨true, 8⟩) (.number 100.0) = .ok (.integer 100) ∧
    IntegerFormat.Receives ⟨true, 8⟩ 100.0 (.integer 100) ∧
    Signature.takeAll ⟨[.list (.integer ⟨false, 8⟩)], none⟩ ⟨#[.number 7.0], #[#[some 0]], 0⟩ "sum" [.array 0] =
      .ok [.list [.integer 7]] ∧
    IntegerFormat.Receives ⟨false, 8⟩ 7.0 (.integer 7) ∧
    (∃ s', Catalog.writeOffered (.field 0 "Level" "hero.Level")
        ⟨#[⟨[⟨"Level", .integer ⟨true, 8⟩, .integer 0⟩], []⟩], #[], #[], #[]⟩ Memory.empty (.number 100.0) =
          (.ok (), s', Memory.empty) ∧
      (s'.records[0]?.getD default).get "Level" = .integer 100 ∧
      IntegerFormat.Receives ⟨true, 8⟩ 100.0 ((s'.records[0]?.getD default).get "Level")) := by
  have htake : Memory.empty.take (.integer ⟨true, 8⟩) (.number 100.0) = .ok (.integer 100) := rfl
  have hcall : Signature.takeAll ⟨[.list (.integer ⟨false, 8⟩)], none⟩ ⟨#[.number 7.0], #[#[some 0]], 0⟩ "sum"
      [.array 0] = .ok [.list [.integer 7]] := rfl
  have hwrite : Catalog.writeOffered (.field 0 "Level" "hero.Level")
      ⟨#[⟨[⟨"Level", .integer ⟨true, 8⟩, .integer 0⟩], []⟩], #[], #[], #[]⟩ Memory.empty (.number 100.0) =
        (.ok (), ⟨#[⟨[⟨"Level", .integer ⟨true, 8⟩, .integer 100⟩], []⟩], #[], #[], #[]⟩, Memory.empty) := rfl
  refine ⟨htake, ((integers_kept_in_range ⟨true, 8⟩ (by decide)).1 _ _).2 _ htake, hcall, ?_, _, hwrite, rfl, ?_⟩
  · exact ((integers_kept_in_range ⟨false, 8⟩ (by decide)).2.1 _ _ _ _ _ hcall).2 0 _ _ _ _ rfl rfl
      (.element (i := 0) rfl rfl (.here _ _ _))
  · exact (integers_kept_in_range ⟨true, 8⟩ (by decide)).2.2 _ _ _ _ _ _ _ _ _ _ hwrite (.here _ _ _)

/-- The number 300 is received as 44 in eight bits. -/
theorem wide_integer_changed : Number.IsInteger 300.0 300 ∧
    Memory.empty.take (.integer ⟨true, 8⟩) (.number 300.0) = .ok (.integer 44) := by
  refine ⟨Number.toInt?_eq_some_iff_isInteger.mp (by decide), ?_⟩
  rfl

end Primer
