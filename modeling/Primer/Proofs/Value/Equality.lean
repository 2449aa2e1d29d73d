import Primer.Proofs.Array.Text
import Primer.Proofs.Number.Pattern
import Primer.Value.Equality

/-!
# Equality does not depend on the order

Two values are compared by cases on the first one and then on the second. Where their kinds differ one of them is
converted and the comparison starts again: a truth value turns into a number, an array into its text, and where only the
second value says how to compare the two change places. This is `Memory.Compares`, rule by rule; a comparison that has a
result comes to its end.

Each comparison of operands has exactly one result, which is what `Memory.operandsEqual` computes
(`Memory.compares_iff`), although arrays may hold each other in any way. The result is the same when the operands change
places (`Memory.operandsEqual_comm`), and every operand but NaN is equal to itself (`Memory.operandsEqual_self`).
-/

set_option autoImplicit false

namespace Primer

/-- Whether a value can be compared: it is no place. -/
def Value.isOperand : Value → Bool
  | .undefined | .null | .number _ | .string _ | .boolean _ | .array _ | .object _ | .function _ | .hostFunction _ => true
  | _ => false

/-- Whether a value is compared by its text with numbers and texts. -/
def Value.hasText : Value → Bool
  | .array _ | .object _ => true
  | _ => false

/-- Whether a value is a number, a text or a truth value. -/
def Value.isSimple : Value → Bool
  | .number _ | .string _ | .boolean _ => true
  | _ => false

/-- A truth value as a number. -/
def boolNumber (b : Bool) : Float := if b then 1.0 else 0.0

namespace Memory

variable {m : Memory} {v w : Value} {x y : Float} {s t : String} {b c r : Bool}

/-- The comparison of two operands with its result. -/
inductive Compares (m : Memory) : Value → Value → Bool → Prop where
  | nothing {v w : Value} (hv : v.isBlank = true) : Compares m v w w.isBlank
  | numbers (x y : Float) : Compares m (.number x) (.number y) (x == y)
  | numberString (x : Float) (s : String) : Compares m (.number x) (.string s) (x == textToNumber s)
  | numberBoolean (x : Float) (b : Bool) : Compares m (.number x) (.boolean b) (x == boolNumber b)
  | numberText {x : Float} {w : Value} {s : String} {r : Bool} (hw : w.hasText = true) (hs : m.ShowsCut [] w s)
    (h : Compares m (.number x) (.string s) r) : Compares m (.number x) w r
  | numberOther (x : Float) {w : Value} (hw : w.hasText = false) (hsimple : w.isSimple = false) :
    Compares m (.number x) w false
  | strings (s t : String) : Compares m (.string s) (.string t) (s == t)
  | stringNumber (s : String) (y : Float) : Compares m (.string s) (.number y) (textToNumber s == y)
  | stringBoolean (s : String) (b : Bool) : Compares m (.string s) (.boolean b) (textToNumber s == boolNumber b)
  | stringText (s : String) {w : Value} {t : String} (hw : w.hasText = true) (ht : m.ShowsCut [] w t) :
    Compares m (.string s) w (s == t)
  | stringOther (s : String) {w : Value} (hw : w.hasText = false) (hsimple : w.isSimple = false) :
    Compares m (.string s) w false
  | booleans (b c : Bool) : Compares m (.boolean b) (.boolean c) (b == c)
  | booleanNumber {b : Bool} {w : Value} {r : Bool} (hw : ∀ c, w ≠ .boolean c)
    (h : Compares m (.number (boolNumber b)) w r) : Compares m (.boolean b) w r
  | swapped {v w : Value} {r : Bool} (hv : v.isBlank = false) (hsimple : v.isSimple = false) (hw : w.isSimple = true)
    (h : Compares m w v r) : Compares m v w r
  | same {v w : Value} (hv : v.isBlank = false) (hsimple : v.isSimple = false) (hw : w.isSimple = false) :
    Compares m v w (v.isSame w)

/-! ## The result -/

/-- A blank value equals the blank values only. -/
theorem operandsEqual_blank (hv : v.isBlank = true) (w : Value) : m.operandsEqual v w = w.isBlank := by
  cases v
  case undefined | null => cases w <;> simp only [operandsEqual, Value.isBlank]
  all_goals cases hv

/-- A number is compared as one. -/
theorem operandsEqual_number (m : Memory) (x : Float) (w : Value) :
    m.operandsEqual (.number x) w = m.numberEquals x w := by
  cases w <;> simp only [operandsEqual]

/-- A text is compared as one. -/
theorem operandsEqual_string (m : Memory) (s : String) (w : Value) :
    m.operandsEqual (.string s) w = m.stringEquals s w := by
  cases w <;> simp only [operandsEqual]

/-- A truth value is compared as one. -/
theorem operandsEqual_boolean (m : Memory) (b : Bool) (w : Value) :
    m.operandsEqual (.boolean b) w = m.booleanEquals b w := by
  cases w <;> simp only [operandsEqual]

/-- What is neither blank nor simple leaves a simple operand to say how to compare. -/
theorem operandsEqual_swapped (hv : v.isBlank = false) (hsimple : v.isSimple = false) (hw : w.isSimple = true) :
    m.operandsEqual v w = m.operandsEqual w v := by
  cases v
  case undefined | null => cases hv
  case number | string | boolean => cases hsimple
  all_goals
    cases w
    case number | string | boolean => simp only [operandsEqual]
    all_goals cases hw

/-- Values that refer to something are compared by what they refer to. -/
theorem operandsEqual_same (hv : v.isBlank = false) (hsimple : v.isSimple = false) (hw : w.isSimple = false) :
    m.operandsEqual v w = v.isSame w := by
  cases v
  case undefined | null => cases hv
  case number | string | boolean => cases hsimple
  all_goals
    cases w
    case number | string | boolean => cases hw
    all_goals simp only [operandsEqual]

/-- A number is compared with the number that a text is read as. -/
theorem numberEquals_hasText (x : Float) (hw : w.hasText = true) :
    m.numberEquals x w = (x == textToNumber (m.text w)) := by
  cases w
  case array | object => simp only [numberEquals]
  all_goals cases hw

/-- A text is compared with the text of the other value. -/
theorem stringEquals_hasText (s : String) (hw : w.hasText = true) : m.stringEquals s w = (s == m.text w) := by
  cases w
  case array | object => simp only [stringEquals]
  all_goals cases hw

/-- A number equals no value without a text. -/
theorem numberEquals_other (x : Float) (hw : w.hasText = false) (hsimple : w.isSimple = false) :
    m.numberEquals x w = false := by
  cases w
  case array | object => cases hw
  case number | string | boolean => cases hsimple
  all_goals simp only [numberEquals]

/-- A text equals no value without a text. -/
theorem stringEquals_other (s : String) (hw : w.hasText = false) (hsimple : w.isSimple = false) :
    m.stringEquals s w = false := by
  cases w
  case array | object => cases hw
  case number | string | boolean => cases hsimple
  all_goals simp only [stringEquals]

/-- A truth value is compared as its number with everything else. -/
theorem booleanEquals_other (b : Bool) (hw : ∀ c, w ≠ .boolean c) :
    m.booleanEquals b w = m.numberEquals (boolNumber b) w := by
  cases w
  case boolean c => exact absurd rfl (hw c)
  all_goals simp only [booleanEquals, boolNumber]

/-- A value is shown as its text and as no other. -/
theorem shows_text (hm : m.Grounded) (v : Value) (s : String) : m.ShowsCut [] v s ↔ s = m.text v :=
  (m.text_shows hm v).1 s

/-- A comparison has no other result than the computed one. -/
theorem Compares.eq (hm : m.Grounded) (h : m.Compares v w r) : r = m.operandsEqual v w := by
  induction h with
  | nothing hv => rw [operandsEqual_blank hv]
  | numbers | numberString | numberBoolean => simp only [operandsEqual_number, numberEquals, boolNumber]
  | numberText hw hs _ ih =>
    rw [ih, operandsEqual_number, operandsEqual_number, numberEquals_hasText _ hw, (shows_text hm _ _).mp hs]
    simp only [numberEquals]
  | numberOther x hw hsimple => rw [operandsEqual_number, numberEquals_other x hw hsimple]
  | strings | stringNumber | stringBoolean => simp only [operandsEqual_string, stringEquals, boolNumber]
  | stringText s hw ht => rw [operandsEqual_string, stringEquals_hasText s hw, (shows_text hm _ _).mp ht]
  | stringOther s hw hsimple => rw [operandsEqual_string, stringEquals_other s hw hsimple]
  | booleans => simp only [operandsEqual_boolean, booleanEquals]
  | booleanNumber hw _ ih => rw [ih, operandsEqual_boolean, booleanEquals_other _ hw, operandsEqual_number]
  | swapped hv hsimple hw _ ih => rw [ih, operandsEqual_swapped hv hsimple hw]
  | same hv hsimple hw => rw [operandsEqual_same hv hsimple hw]

/-- The comparison of a number with anything comes to its end. -/
theorem compares_number (hm : m.Grounded) (x : Float) (w : Value) : ∃ r, m.Compares (.number x) w r := by
  cases htext : w.hasText with
  | true => exact ⟨_, .numberText htext ((shows_text hm w _).mpr rfl) (.numberString x _)⟩
  | false =>
    cases hsimple : w.isSimple with
    | false => exact ⟨_, .numberOther x htext hsimple⟩
    | true =>
      cases w
      case number y => exact ⟨_, .numbers x y⟩
      case string s => exact ⟨_, .numberString x s⟩
      case boolean b => exact ⟨_, .numberBoolean x b⟩
      all_goals cases hsimple

/-- Comparing a text comes to a result. -/
theorem compares_string (hm : m.Grounded) (s : String) (w : Value) : ∃ r, m.Compares (.string s) w r := by
  cases htext : w.hasText with
  | true => exact ⟨_, .stringText s htext ((shows_text hm w _).mpr rfl)⟩
  | false =>
    cases hsimple : w.isSimple with
    | false => exact ⟨_, .stringOther s htext hsimple⟩
    | true =>
      cases w
      case number y => exact ⟨_, .stringNumber s y⟩
      case string t => exact ⟨_, .strings s t⟩
      case boolean b => exact ⟨_, .stringBoolean s b⟩
      all_goals cases hsimple

/-- Comparing a truth value comes to a result. -/
theorem compares_boolean (hm : m.Grounded) (b : Bool) (w : Value) : ∃ r, m.Compares (.boolean b) w r := by
  by_cases hw : ∃ c, w = .boolean c
  · obtain ⟨c, rfl⟩ := hw
    exact ⟨_, .booleans b c⟩
  · obtain ⟨r, hr⟩ := compares_number hm (boolNumber b) w
    exact ⟨r, .booleanNumber (fun c hc => hw ⟨c, hc⟩) hr⟩

/-- The comparison of a simple operand with anything comes to its end. -/
theorem compares_simple (hm : m.Grounded) (hv : v.isSimple = true) (w : Value) : ∃ r, m.Compares v w r := by
  cases v
  case number x => exact compares_number hm x w
  case string s => exact compares_string hm s w
  case boolean b => exact compares_boolean hm b w
  all_goals cases hv

/-- Every comparison comes to its end, and its result is the computed one. -/
theorem compares_iff (hm : m.Grounded) (v w : Value) (r : Bool) : m.Compares v w r ↔ r = m.operandsEqual v w := by
  constructor
  · exact Compares.eq hm
  · rintro rfl
    suffices h : ∃ r, m.Compares v w r by
      obtain ⟨r, hr⟩ := h
      rwa [← hr.eq hm]
    cases hsimple : v.isSimple with
    | true => exact compares_simple hm hsimple w
    | false =>
      cases hblank : v.isBlank with
      | true => exact ⟨_, .nothing hblank⟩
      | false =>
        cases hother : w.isSimple with
        | true =>
          obtain ⟨r, hr⟩ := compares_simple hm hother v
          exact ⟨r, .swapped hblank hsimple hother hr⟩
        | false => exact ⟨_, .same hblank hsimple hother⟩

/-! ## The order of the operands -/

/-- Being the same does not depend on the order. -/
theorem isSame_comm (v w : Value) : v.isSame w = w.isSame v := by
  cases v <;> cases w <;> simp only [Value.isSame] <;> exact BEq.comm

/-- Undefined and null are equal to each other and to nothing else, on the right side as on the left one. -/
theorem operandsEqual_blank_right (v : Value) (hw : w.isBlank = true) : m.operandsEqual v w = v.isBlank := by
  have htext : w.hasText = false := by cases w <;> first | rfl | cases hw
  have hother : w.isSimple = false := by cases w <;> first | rfl | cases hw
  have hboolean (c : Bool) : w ≠ .boolean c := by
    rintro rfl
    cases hw
  cases v
  case undefined | null => rw [operandsEqual_blank rfl, hw, Value.isBlank]
  case number x =>
    rw [operandsEqual_number, numberEquals_other x htext hother]
    rfl
  case string s =>
    rw [operandsEqual_string, stringEquals_other s htext hother]
    rfl
  case boolean b =>
    rw [operandsEqual_boolean, booleanEquals_other b hboolean, numberEquals_other _ htext hother]
    rfl
  all_goals
    rw [operandsEqual_same rfl rfl hother]
    cases w
    case undefined | null => simp only [Value.isSame, Value.isBlank]
    all_goals cases hw

/-- Of two simple operands one is converted to the kind of the other, or both to numbers, in either order. -/
theorem operandsEqual_simple_comm (hv : v.isSimple = true) (hw : w.isSimple = true) :
    m.operandsEqual v w = m.operandsEqual w v := by
  cases v
  case number x =>
    cases w
    case number | string | boolean =>
      simp only [operandsEqual_number, operandsEqual_string, operandsEqual_boolean, numberEquals, stringEquals,
        booleanEquals]
      exact Number.beq_comm _ _
    all_goals cases hw
  case string s =>
    cases w
    case number | boolean =>
      simp only [operandsEqual_number, operandsEqual_string, operandsEqual_boolean, numberEquals, stringEquals,
        booleanEquals]
      exact Number.beq_comm _ _
    case string t =>
      simp only [operandsEqual_string, stringEquals]
      exact BEq.comm
    all_goals cases hw
  case boolean b =>
    cases w
    case number | string =>
      simp only [operandsEqual_number, operandsEqual_string, operandsEqual_boolean, numberEquals, stringEquals,
        booleanEquals]
      exact Number.beq_comm _ _
    case boolean c =>
      simp only [operandsEqual_boolean, booleanEquals]
      exact BEq.comm
    all_goals cases hw
  all_goals cases hv

/-- Operands may change places. -/
theorem operandsEqual_comm (m : Memory) (v w : Value) : m.operandsEqual v w = m.operandsEqual w v := by
  cases hv : v.isBlank with
  | true => rw [operandsEqual_blank hv, operandsEqual_blank_right w hv]
  | false =>
    cases hw : w.isBlank with
    | true => rw [operandsEqual_blank_right v hw, operandsEqual_blank hw]
    | false =>
      cases hv' : v.isSimple with
      | true =>
        cases hw' : w.isSimple with
        | true => exact operandsEqual_simple_comm hv' hw'
        | false => exact (operandsEqual_swapped hw hw' hv').symm
      | false =>
        cases hw' : w.isSimple with
        | true => exact operandsEqual_swapped hv hv' hw'
        | false => rw [operandsEqual_same hv hv' hw', operandsEqual_same hw hw' hv', isSame_comm]

/-- An operand is equal to itself unless it is NaN. -/
theorem operandsEqual_self (m : Memory) (hv : v.isOperand = true) :
    m.operandsEqual v v = true ↔ ¬∃ x, v = .number x ∧ Number.isNaN x = true := by
  cases v
  case undefined | null => simp [operandsEqual]
  case number x =>
    rw [operandsEqual_number, numberEquals, Number.beq_self_iff]
    simp
  case string s => simp [operandsEqual_string, stringEquals]
  case boolean b => simp [operandsEqual_boolean, booleanEquals]
  case array | object | function | hostFunction =>
    rw [operandsEqual_same rfl rfl rfl]
    simp [Value.isSame]
  all_goals cases hv

/-- The comparison of two values, each of them taken out of its cell if it lies in one, comes to its end with one result,
however their arrays hold each other. The result does not depend on which of the values stands first. A value is equal to
itself if and only if it is not NaN and no cell that holds it.

A memory whose cells hold no cells is grounded, and so is the memory of every run. -/
theorem looselyEqual_terminates_symmetric (m : Memory) (hm : m.Grounded) {a : Value} (b : Value)
    (ha : (m.operand a).isOperand = true) :
    (∀ r, m.Compares (m.operand a) (m.operand b) r ↔ r = m.looselyEqual a b) ∧
      m.looselyEqual a b = m.looselyEqual b a ∧
      (m.looselyEqual a a = true ↔ ¬∃ x, m.operand a = .number x ∧ Number.isNaN x = true) := by
  refine ⟨?_, ?_, ?_⟩
  · exact compares_iff hm (m.operand a) (m.operand b)
  · exact operandsEqual_comm m (m.operand a) (m.operand b)
  · exact operandsEqual_self m ha

/-- A variable that holds an array with itself as the only element. -/
def inItself : Memory := ⟨#[.array 0, .array 0], #[#[some 1]], 0⟩

/-- An array that contains itself equals `false`, since its text is empty. -/
theorem inItself_looselyEqual_false : inItself.Grounded ∧ (inItself.operand (.cell 0)).isOperand = true ∧
    inItself.Compares (inItself.operand (.cell 0)) (inItself.operand (.boolean false)) true ∧
    inItself.looselyEqual (.boolean false) (.cell 0) = true ∧ inItself.looselyEqual (.cell 0) (.cell 0) = true := by
  have hgrounded : inItself.Grounded := by
    apply grounded_of_noCells
    intro v hv r
    simp only [inItself, List.mem_toArray, List.mem_cons, List.not_mem_nil, or_false, or_self] at hv
    rw [hv]
    exact nofun
  have hequal : inItself.looselyEqual (.cell 0) (.boolean false) = true := by decide +kernel
  obtain ⟨hends, hcomm, hself⟩ :=
    looselyEqual_terminates_symmetric inItself hgrounded (a := .cell 0) (.boolean false) rfl
  refine ⟨hgrounded, rfl, (hends true).mpr hequal.symm, hcomm.symm.trans hequal, hself.mpr ?_⟩
  rintro ⟨x, hx, -⟩
  cases hx

end Memory

end Primer
