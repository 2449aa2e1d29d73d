import Primer.Proofs.Array.Sequence
import Primer.Proofs.Embedding.Ending
import Primer.Proofs.Embedding.Integer
import Primer.Proofs.Lenient.Skipped

/-!
# There and back

Offering native values and taking them are two recursions, one on the native value, the other on the type that is wanted
or on the value. Between them stands a relation: a value that a native one was offered as (`Memory.Stands`), arrays for
lists and numbers for integers, in a memory that may have grown since. Data, that is native values without records,
functions and the like, is offered as such a value (`Native.offer_data`), and

* where a value of the right type stands for data, the data is taken back (`Native.Fits.take`),
* where a value stands for what another one became, it has the same shape and content as that one, but for null in place
  of undefined (`Memory.Becomes.mirrors`).

Integers are numbers in between. Up to the size of fifty-three bits they are exactly so (`Number.isInteger_ofInt`).
-/

set_option autoImplicit false

namespace Primer

namespace Number

/-! ## Integers as numbers -/

/-- The naturals up to fifty-three bits are sizes. -/
theorem exists_size_eq {n : Nat} (h : n ≤ 2 ^ 53) : ∃ b < infinityBits, size b = n := by
  have hinfinity : infinityBits = 2047 * 2 ^ 52 := rfl
  rcases Nat.eq_zero_or_pos n with rfl | hpos
  · exact ⟨0, by omega, by rw [size_zero, Nat.cast_zero]⟩
  rcases h.eq_or_lt with rfl | hlt
  · refine ⟨1074 * 2 ^ 52 + 2 ^ 53, by omega, ?_⟩
    rw [size_overflow]
    norm_num [unit]
  · -- the mantissa is shifted until it has all its bits
    have hlog : n.log2 ≤ 52 := Nat.lt_succ_iff.mp ((Nat.log2_lt hpos.ne').mpr hlt)
    have hlow : 2 ^ n.log2 ≤ n := Nat.log2_self_le hpos.ne'
    have hhigh : n < 2 ^ (n.log2 + 1) := Nat.lt_log2_self
    obtain ⟨shift, hshift⟩ := Nat.exists_eq_add_of_le hlog
    have hpower : 2 ^ n.log2 * 2 ^ shift = 2 ^ 52 := by rw [← pow_add, ← hshift]
    have hfull : 2 ^ 52 ≤ n * 2 ^ shift := hpower ▸ Nat.mul_le_mul_right _ hlow
    have hfits : n * 2 ^ shift < 2 ^ 53 := by
      calc n * 2 ^ shift < 2 ^ (n.log2 + 1) * 2 ^ shift := Nat.mul_lt_mul_of_pos_right hhigh (Nat.two_pow_pos _)
        _ = 2 * (2 ^ n.log2 * 2 ^ shift) := by ring
        _ = 2 ^ 53 := by rw [hpower]; rfl
    refine ⟨(1074 - shift) * 2 ^ 52 + n * 2 ^ shift, by omega, ?_⟩
    rw [size_grid ⟨hfits, .inr hfull⟩]
    have hunit : (2 : ℚ) ^ shift * unit (1074 - shift) = 1 := by
      unfold unit
      rw [← zpow_natCast, ← zpow_add₀ (by norm_num)]
      have hexponent : (shift : Int) + ((1074 - shift : Nat) - 1074) = 0 := by omega
      rw [hexponent, zpow_zero]
    push_cast
    rw [mul_assoc, hunit, mul_one]

/-- An integer of up to fifty-three bits is the number that it is made. -/
theorem isInteger_ofInt {n : Int} (h : n.natAbs ≤ 2 ^ 53) : IsInteger (ofInt n) n := by
  obtain ⟨b, hb, hsize⟩ := exists_size_eq h
  have hnearest : nearestBits n.natAbs 1 = b := by
    have hbits := nearestBits_isNearest n.natAbs Nat.one_pos
    rw [Nat.cast_one, div_one, ← hsize] at hbits
    exact hbits.unique (isNearest_size hb.le)
  have hnumber : ofInt n = withSign (n < 0) b := by
    unfold ofInt nearest
    rw [hnearest]
  unfold IsInteger rational
  rw [hnumber, isFinite_iff_pattern, isNegative_withSign hb.le, magnitude_eq, pattern_withSign hb.le]
  refine ⟨hb, ?_⟩
  change (if _ then -size b else size b) = _
  rw [hsize]
  by_cases hneg : n < 0
  · have habs : (n.natAbs : Int) = -n := by omega
    rw [if_pos (by simpa using hneg), ← Int.cast_natCast, habs, Int.cast_neg, neg_neg]
  · have habs : (n.natAbs : Int) = n := by omega
    rw [if_neg (by simpa using hneg), ← Int.cast_natCast, habs]

end Number

namespace Memory

variable {m m' : Memory}

/-! ## Arrays within the limit -/

/-- The memories that come about: from the empty one by making cells, arrays within the limit and functions, by writing
cells, and by using arrays. -/
inductive Built : Memory → Prop where
  | empty : Built .empty
  | alloc {m : Memory} (h : Built m) (v : Value) : Built (m.alloc v).2
  | write {m : Memory} (h : Built m) (r : CellRef) (v : Value) : Built (m.write r v)
  | newArray {m : Memory} (h : Built m) {values : List Value} (hlength : values.length ≤ maxArrayLength) :
    Built (m.newArray values).2
  | used {m m' : Memory} (h : Built m) {a : ArrayRef} {use : ArrayUse} (hrun : use.run a m = some m') : Built m'
  | declared {m : Memory} (h : Built m) (k : Nat) : Built { m with functions := k }

/-- A new array within the bound keeps all arrays within it. -/
theorem size_newArray_le (hm : ∀ b, m.size b ≤ maxArrayLength) {values : List Value}
    (hlength : values.length ≤ maxArrayLength) (b : ArrayRef) : (m.newArray values).2.size b ≤ maxArrayLength := by
  have hslots : (m.newArray values).2.slots b =
      (m.arrays.push ((m.allocAll values).1.map some).toArray)[b]?.getD #[] := rfl
  have hold : m.slots b = m.arrays[b]?.getD #[] := rfl
  unfold size at hm ⊢
  rw [hslots, Array.getElem?_push]
  split
  · simpa [allocAll] using hlength
  · rw [← hold]
    exact hm b

/-- Resizing within the bound keeps all arrays within it. -/
theorem size_resize_le (hm : ∀ b, m.size b ≤ maxArrayLength) (a : ArrayRef) {n : Nat} (hn : n ≤ maxArrayLength)
    (b : ArrayRef) : (m.resize a n).size b ≤ maxArrayLength := by
  rw [size_resize]
  split
  · exact hn
  · exact hm b

/-- A use of an array leaves all arrays within the limit. -/
theorem size_run_le (hm : ∀ b, m.size b ≤ maxArrayLength) {a : ArrayRef} {use : ArrayUse}
    (hrun : use.run a m = some m') (b : ArrayRef) : m'.size b ≤ maxArrayLength := by
  cases use with
  | look i =>
    cases hrun
    rw [size_slot]
    exact hm b
  | write i v =>
    have hslot := size_slot m a i b
    dsimp only [ArrayUse.run] at hrun
    split at hrun
    all_goals
      rename_i hfound
      cases hrun
      rw [hfound] at hslot
      exact hslot.trans_le (hm b)
  | put i v =>
    change m.setSlot a i v = some m' at hrun
    unfold setSlot at hrun
    split at hrun
    · cases hrun
    · cases hrun
      rw [size_putSlot]
      change (if m.size a ≤ i then m.resize a (i + 1) else m).size b ≤ maxArrayLength
      split
      · exact size_resize_le hm a (by omega) b
      · exact hm b
  | setLength v =>
    change (m.setLength a v).toOption = some m' at hrun
    rw [setLength_eq] at hrun
    obtain ⟨n, hn, rfl⟩ := Option.map_eq_some_iff.mp hrun
    exact size_resize_le hm a (Value.length?_le hn) b

/-- No array of a memory that comes about is longer than arrays can be. -/
theorem Built.size_le (h : m.Built) (a : ArrayRef) : m.size a ≤ maxArrayLength := by
  induction h generalizing a with
  | empty => exact Nat.zero_le _
  | alloc _ _ ih | write _ _ _ ih | declared _ _ ih => exact ih a
  | newArray _ hlength ih => exact size_newArray_le ih hlength a
  | used _ hrun ih => exact size_run_le ih hrun a

/-! ## Arrays in a memory that grows -/

/-- An array keeps its slots when the memory is extended. -/
theorem Extends.slots {a : ArrayRef} (h : m.Extends m') (hthere : a < m.arrays.size) : m'.slots a = m.slots a := by
  have hold := Array.getElem?_eq_getElem hthere
  unfold Memory.slots
  rw [h.array hold, hold]

/-- An array keeps separate slots when the memory is extended. -/
theorem Separate.extend {a : ArrayRef} (hseparate : m.Separate a) (h : m.Extends m') : m'.Separate a := by
  have hslots := h.slots hseparate.array
  constructor
  · have harray := h.array (Array.getElem?_eq_getElem hseparate.array)
    exact (Array.getElem?_eq_some_iff.mp harray).1
  · intro i r hslot
    rw [hslots] at hslot
    have hcell := h.cell (Array.getElem?_eq_getElem (hseparate.cell i r hslot))
    exact (Array.getElem?_eq_some_iff.mp hcell).1
  · rw [hslots]
    exact hseparate.distinct

/-- An array keeps its values when the memory grows. -/
theorem Separate.values_extend {a : ArrayRef} (hseparate : m.Separate a) (h : m.Extends m') :
    m'.values a = m.values a := by
  apply List.ext_getElem?
  intro i
  rw [getElem?_values, getElem?_values, h.slots hseparate.array]
  cases hslot : (m.slots a)[i]? with
  | none => rfl
  | some entry =>
    cases entry with
    | none => rfl
    | some r =>
      have hcell := Array.getElem?_eq_getElem (hseparate.cell i r hslot)
      have hread : m'.read r = m.read r := by
        unfold read
        rw [h.cell hcell, hcell]
      rw [Option.map_some, Option.map_some, slotValue_some, slotValue_some, hread]

/-! ## What data is offered as -/

/-- A value stands for a native one: an array for a list, a number for an integer, null for nothing. -/
inductive Stands (m : Memory) : Native → Value → Prop where
  | nothing : Stands m .nothing .null
  | boolean (b : Bool) : Stands m (.boolean b) (.boolean b)
  | string (s : String) : Stands m (.string s) (.string s)
  | double (x : Float) : Stands m (.double x) (.number x)
  | integer (n : Int) : Stands m (.integer n) (.number (Number.ofInt n))
  | list {items : List Native} {a : ArrayRef} (hseparate : m.Separate a) (hlength : items.length = (m.values a).length)
    (h : ∀ (i : Nat) item w, items[i]? = some item → (m.values a)[i]? = some w → Stands m item w) :
    Stands m (.list items) (.array a)

variable {n : Native} {v w : Value}

/-- What stands for a native value does so when the memory is extended. -/
theorem Stands.extend (h : m.Stands n w) (hextends : m.Extends m') : m'.Stands n w := by
  induction h with
  | nothing => exact .nothing
  | boolean b => exact .boolean b
  | string s => exact .string s
  | double x => exact .double x
  | integer n => exact .integer n
  | list hseparate hlength _ ih =>
    have hvalues := hseparate.values_extend hextends
    refine .list (hseparate.extend hextends) (hvalues ▸ hlength) ?_
    rw [hvalues]
    exact ih

/-- What stands for a native value is presented as it is. -/
theorem Stands.present (h : m.Stands n w) : present w = w := by cases h <;> rfl

/-- Values that stand for native ones are presented as they are. -/
theorem map_present {items : List Native} {values : List Value} (h : List.Forall₂ m.Stands items values) :
    values.map Primer.present = values := by
  induction h with
  | nil => rfl
  | cons hw _ ih => rw [List.map_cons, hw.present, ih]

/-- A new array stands for a list if its values do for the items. -/
theorem stands_newArray {items : List Native} {values : List Value} (h : List.Forall₂ m.Stands items values) :
    (m.newArray values).2.Stands (.list items) (.array (m.newArray values).1) := by
  have hvalues : (m.newArray values).2.values (m.newArray values).1 = values := by
    rw [values_newArray, map_present h]
  refine .list (m.separate_newArray values) ?_ ?_
  · rw [hvalues]
    exact h.length_eq
  · rw [hvalues]
    intro i item w hitem hw
    have hstands : m.Stands item w := forall₂_getElem? h hitem hw
    exact hstands.extend (m.extends_newArray values)

end Memory

/-- Data: nothing, truth values, texts, numbers, integers, and lists of data that are no longer than arrays can be. -/
inductive Native.IsData : Native → Prop where
  | nothing : IsData .nothing
  | boolean (b : Bool) : IsData (.boolean b)
  | string (s : String) : IsData (.string s)
  | double (x : Float) : IsData (.double x)
  | integer (n : Int) : IsData (.integer n)
  | list {items : List Native} (hlength : items.length ≤ maxArrayLength) (h : ∀ item ∈ items, IsData item) :
    IsData (.list items)

namespace Native

variable {n : Native} {t : NativeType}

/-- The items of a list are offered one after the other, each in a memory that holds what was offered before. -/
theorem offerItems_data {items : List Native} (hdata : ∀ item ∈ items, item.IsData)
    (hoffer : ∀ item ∈ items, ∀ (name : String) (s : Stock),
      ∃ w s', item.offer name s = .ok (w, s') ∧ s.memory.Extends s'.memory ∧ s'.memory.Stands item w)
    (name : String) (i : Nat) (done : List Value) (s : Stock) :
    ∃ values s', offerItems name s i done items = .ok (done.reverse ++ values, s') ∧ s.memory.Extends s'.memory ∧
      List.Forall₂ s'.memory.Stands items values := by
  induction items generalizing i done s with
  | nil => exact ⟨[], s, by simp [offerItems], .refl _, .nil⟩
  | cons item items ih =>
    obtain ⟨w, s', hw, hextends, hstands⟩ := hoffer item List.mem_cons_self (name ++ "[" ++ toString i ++ "]") s
    obtain ⟨values, s'', hvalues, hextends', hrest⟩ := ih (List.forall_mem_cons.mp hdata).2
      (List.forall_mem_cons.mp hoffer).2 (i + 1) (w :: done) s'
    refine ⟨w :: values, s'', ?_, hextends.trans hextends', .cons (hstands.extend hextends') hrest⟩
    rw [List.reverse_cons, List.append_assoc, List.singleton_append] at hvalues
    cases item
    case value v => cases hdata _ List.mem_cons_self
    all_goals
      unfold offerItems
      rw [hw]
      exact hvalues

/-- Data can be offered, and what it is offered as stands for it. -/
theorem offer_data (hdata : n.IsData) (name : String) (s : Stock) :
    ∃ w s', n.offer name s = .ok (w, s') ∧ s.memory.Extends s'.memory ∧ s'.memory.Stands n w := by
  induction hdata generalizing name s with
  | nothing => exact ⟨_, s, rfl, .refl _, .nothing⟩
  | boolean b => exact ⟨_, s, rfl, .refl _, .boolean b⟩
  | string t => exact ⟨_, s, rfl, .refl _, .string t⟩
  | double x => exact ⟨_, s, rfl, .refl _, .double x⟩
  | integer n => exact ⟨_, s, rfl, .refl _, .integer n⟩
  | @list items hlength hdata ih =>
    obtain ⟨values, s', hvalues, hextends, hstands⟩ := offerItems_data hdata ih name 0 [] s
    refine ⟨(s'.addArray values).1, (s'.addArray values).2, ?_,
      hextends.trans (s'.memory.extends_newArray values), Memory.stands_newArray hstands⟩
    unfold offer
    rw [if_neg (Nat.not_lt.mpr hlength), hvalues]
    rfl

/-! ## Data that is taken back -/

/-- Native values of a type that is built of truth values, texts, numbers, integers of up to sixty-four bits and lists.
The integers have up to fifty-three bits, and the lists are no longer than arrays can be. -/
inductive Fits : NativeType → Native → Prop where
  | boolean (b : Bool) : Fits .boolean (.boolean b)
  | string (s : String) : Fits .string (.string s)
  | double (x : Float) : Fits .double (.double x)
  | integer {f : IntegerFormat} {n : Int} (hbits : f.bits ≤ 64) (hholds : f.Holds n) (hexact : n.natAbs ≤ 2 ^ 53) :
    Fits (.integer f) (.integer n)
  | list {t : NativeType} {items : List Native} (hlength : items.length ≤ maxArrayLength)
    (h : ∀ item ∈ items, Fits t item) : Fits (.list t) (.list items)

/-- A value that fits a type is data. -/
theorem Fits.isData (h : Fits t n) : n.IsData := by
  induction h with
  | boolean b => exact .boolean b
  | string s => exact .string s
  | double x => exact .double x
  | integer => exact .integer _
  | list hlength _ ih => exact .list hlength ih

/-- Where a value stands for a native one of a type, the native one is taken. -/
theorem Fits.take {m : Memory} {w : Value} (h : Fits t n) (hstands : m.Stands n w) : m.take t w = .ok n := by
  induction h generalizing w with
  | boolean | string | double =>
    cases hstands
    rfl
  | integer hbits hholds hexact =>
    cases hstands
    refine Memory.takeInteger_eq_ok_iff.mpr ⟨_, _, rfl, Number.isInteger_ofInt hexact, hholds.admits, ?_⟩
    rw [(IntegerFormat.wrap_eq_iff hbits hholds.admits).mpr hholds]
  | list _ _ ih =>
    cases hstands with
    | list _ hlength hitems =>
      refine Memory.take_list_eq_ok_iff.mpr ⟨_, _, rfl, List.forall₂_iff_get.mpr ⟨hlength.symm, ?_⟩, rfl⟩
      intro i hi hi'
      exact ih _ (List.getElem_mem hi') (hitems i _ _ (List.getElem?_eq_getElem hi') (List.getElem?_eq_getElem hi))

end Native

namespace Memory

/-! ## Values that are offered again -/

/-- A tree of numbers, texts, truth values, null, undefined and arrays. -/
inductive IsTree (m : Memory) : Value → Prop where
  | own {v : Value} (h : v.ownNative? ≠ none) : IsTree m v
  | array {a : ArrayRef} (h : ∀ e ∈ m.values a, IsTree m e) : IsTree m (.array a)

/-- A value has the shape and content of another one, but for null in place of undefined. -/
inductive Mirrors (m m' : Memory) : Value → Value → Prop where
  | number (x : Float) : Mirrors m m' (.number x) (.number x)
  | string (s : String) : Mirrors m m' (.string s) (.string s)
  | boolean (b : Bool) : Mirrors m m' (.boolean b) (.boolean b)
  | null : Mirrors m m' .null .null
  | undefined : Mirrors m m' .undefined .null
  | array {a b : ArrayRef} (hlength : m.size a = m'.size b)
    (h : ∀ (i : Nat) v w, (m.values a)[i]? = some v → (m'.values b)[i]? = some w → Mirrors m m' v w) :
    Mirrors m m' (.array a) (.array b)

variable {m m' : Memory} {v w : Value} {n : Native}

/-- The native counterpart of a plain value is data. -/
theorem isData_of_ownNative? (h : v.ownNative? = some n) : n.IsData := by
  cases v <;> cases h <;> constructor

/-- A tree becomes data. -/
theorem IsTree.becomes (h : m.IsTree v) (hm : ∀ a, m.size a ≤ maxArrayLength) :
    ∃ n, m.Becomes v (.ok n) ∧ n.IsData := by
  induction h with
  | own h =>
    obtain ⟨n, hn⟩ := Option.ne_none_iff_exists'.mp h
    exact ⟨n, .own hn, isData_of_ownNative? hn⟩
  | array _ ih =>
    choose! native hbecomes hdata using ih
    refine ⟨_, .array hbecomes, .list ?_ ?_⟩
    · rw [List.length_map, length_values]
      exact hm _
    · exact List.forall_mem_map.mpr hdata

/-- What stands for what a value became has the shape and content of the value. -/
theorem Becomes.mirrors {r : Except String Native} (h : m.Becomes v r) (hr : r = .ok n) (hstands : m'.Stands n w) :
    Mirrors m m' v w := by
  induction h generalizing n w with
  | @own v n' hown =>
    cases hr
    cases v <;> cases hown <;> cases hstands <;> constructor
  | refused | stopped => cases hr
  | @array a native _ ih =>
    cases hr
    cases hstands with
    | list _ hlength hitems =>
      refine .array ?_ ?_
      · rw [List.length_map, length_values, length_values] at hlength
        exact hlength
      · intro i v w hv hw
        have hitem : ((m.values a).map native)[i]? = some (native v) := by rw [List.getElem?_map, hv, Option.map_some]
        exact ih v (List.mem_of_getElem? hv) rfl (hitems i _ w hitem hw)

end Memory

/-- A native value of a type that is built of truth values, texts, numbers, integers and lists can be offered, and what
it is offered as is taken as the type to give the value back. A tree of numbers, texts, truth values, null, undefined
and arrays is taken where anything is, and what it becomes can be offered to give a tree of the same shape and content,
but for null in place of undefined. -/
theorem offer_take_round_trip :
    (∀ (t : NativeType) (n : Native), n.Fits t → ∀ (name : String) (s : Stock),
      ∃ v s', n.offer name s = .ok (v, s') ∧ s'.memory.take t v = .ok n) ∧
    ∀ (m : Memory) (v : Value), m.Built → m.IsTree v → ∃ n, m.take .any v = .ok n ∧
      ∀ (name : String) (s : Stock), ∃ w s', n.offer name s = .ok (w, s') ∧ m.Mirrors s'.memory v w := by
  constructor
  · intro t n hfits name s
    obtain ⟨v, s', hoffer, -, hstands⟩ := Native.offer_data hfits.isData name s
    exact ⟨v, s', hoffer, hfits.take hstands⟩
  · intro m v hm htree
    obtain ⟨n, hbecomes, hdata⟩ := htree.becomes hm.size_le
    refine ⟨n, (Memory.becomes_iff le_rfl).mp hbecomes, ?_⟩
    intro name s
    obtain ⟨w, s', hoffer, -, hstands⟩ := Native.offer_data hdata name s
    exact ⟨w, s', hoffer, hbecomes.mirrors rfl hstands⟩

/-- A memory with the arrays `a = ["x"]` and `b = [undefined, a, null]`. -/
def Memory.nested : Memory := ((Memory.empty.newArray [.string "x"]).2.newArray [.undefined, .array 0, .null]).2

/-- Two lists of small integers in a list, and an array in an array. -/
theorem nested_round_trip :
    Native.Fits (.list (.list (.integer ⟨true, 8⟩))) (.list [.list [.integer 7, .integer (-128)], .list []]) ∧
    (∃ v s', Native.offer "lists" ⟨Registry.empty, Memory.empty⟩
        (.list [.list [.integer 7, .integer (-128)], .list []]) = .ok (v, s') ∧
      s'.memory.take (.list (.list (.integer ⟨true, 8⟩))) v =
        .ok (.list [.list [.integer 7, .integer (-128)], .list []])) ∧
    Memory.nested.Built ∧ Memory.nested.IsTree (.array 1) ∧
    ∃ n w s', Memory.nested.take .any (.array 1) = .ok n ∧
      n.offer "tree" ⟨Registry.empty, Memory.nested⟩ = .ok (w, s') ∧ Memory.nested.Mirrors s'.memory (.array 1) w := by
  have hinner : Native.Fits (.list (.integer ⟨true, 8⟩)) (.list [.integer 7, .integer (-128)]) := by
    refine .list (by decide) ?_
    simp only [List.forall_mem_cons]
    exact ⟨.integer (by decide) ⟨by decide, by decide⟩ (by decide),
      .integer (by decide) ⟨by decide, by decide⟩ (by decide), nofun⟩
  have hfits : Native.Fits (.list (.list (.integer ⟨true, 8⟩)))
      (.list [.list [.integer 7, .integer (-128)], .list []]) := by
    refine .list (by decide) ?_
    simp only [List.forall_mem_cons]
    exact ⟨hinner, .list (by decide) nofun, nofun⟩
  have hbuilt : Memory.nested.Built := .newArray (.newArray .empty (by decide)) (by decide)
  have htree : Memory.nested.IsTree (.array 1) := by
    refine .array ?_
    rw [show Memory.nested.values 1 = [.undefined, .array 0, .null] from rfl]
    simp only [List.forall_mem_cons]
    refine ⟨.own nofun, .array ?_, .own nofun, nofun⟩
    rw [show Memory.nested.values 0 = [.string "x"] from rfl]
    simp only [List.forall_mem_cons]
    exact ⟨.own nofun, nofun⟩
  obtain ⟨n, htake, hoffer⟩ := offer_take_round_trip.2 Memory.nested (.array 1) hbuilt htree
  obtain ⟨w, s', hw, hmirrors⟩ := hoffer "tree" ⟨Registry.empty, Memory.nested⟩
  exact ⟨hfits, offer_take_round_trip.1 _ _ hfits _ _, hbuilt, htree, n, w, s', htake, hw, hmirrors⟩

end Primer
