import Primer.Host.Arithmetic
import Primer.Host.Console
import Primer.Proofs.Lenient.Text
import Primer.Run.Operator

/-!
# What the checked forms compute, the lenient ones compute too

Where the strict form of an operator or of a function of `Math` accepts its operands, the lenient form gives
the same result on operands that agree. The only exceptions are `&&` and `||`, which have no lenient form as
operators on values.
-/

set_option autoImplicit false

namespace Primer

variable {L : Link} {V : CellRef → CellRef → Prop} {m m' : Memory}

/-- A finite number is not NaN. -/
theorem Number.isNaN_of_isFinite {x : Float} (h : Number.isFinite x = true) : Number.isNaN x = false := by
  unfold Number.isFinite at h
  unfold Number.isNaN
  rw [bne_iff_ne] at h
  simp [h]

/-- A value that an operator can give: it refers to nothing in memory and is no place. -/
structure Value.Simple (v : Value) : Prop where
  standalone : v.Standalone
  settled : v.isPlace = false

/-- A simple value corresponds to itself. -/
theorem Value.Simple.stored {v : Value} (h : v.Simple) : Stored L v v := ⟨.same h.standalone, h.settled⟩

/-- A stored number is the same on the other side. -/
theorem Stored.number {x : Float} {w : Value} (h : Stored L (.number x) w) : w = .number x := by
  cases h.agrees
  rfl

/-- Only the same text corresponds to a text. -/
theorem Stored.string {t : String} {w : Value} (h : Stored L (.string t) w) : w = .string t := by
  cases h.agrees
  rfl

/-- Only the same truth value corresponds to a truth value. -/
theorem Stored.boolean {b : Bool} {w : Value} (h : Stored L (.boolean b) w) : w = .boolean b := by
  cases h.agrees
  rfl

/-- Numbers and texts are simple. -/
theorem Value.isNumberOrString_simple {v : Value} (h : v.isNumberOrString = true) : v.Simple := by
  cases v <;> first | exact ⟨trivial, rfl⟩ | cases h

/-- Only the same value corresponds to a number or text. -/
theorem Stored.eq_of_isNumberOrString {v w : Value} (h : Stored L v w) (hv : v.isNumberOrString = true) :
    w = v := by
  cases v <;> first | exact h.number | exact h.string | cases hv

/-! ## Operators -/

/-- What is accepted as a finite number is one. -/
theorem Memory.of_finiteNumber_eq_ok {symbol : String} {v : Value} {x : Float}
    (h : m.finiteNumber symbol v = .ok x) : v = .number x ∧ Number.isFinite x = true := by
  unfold Memory.finiteNumber at h
  split at h
  · split at h
    · cases h
      exact ⟨rfl, ‹_›⟩
    · cases h
  · cases h

/-- The arithmetic and ordering operators on two finite numbers. -/
theorem Memory.unchecked_of_numeric {symbol : String} (hsymbol : symbol ∈ numericSymbols) {x y : Float}
    (hx : Number.isFinite x = true) (hy : Number.isFinite y = true) :
    m.unchecked symbol (.number x) (.number y) = numeric symbol x y ∧ (numeric symbol x y).Simple := by
  have hordered {s : String} {p : Bool} (hp : m.ordered s (.number x) (.number y) =
      if Number.isNaN x || Number.isNaN y then false else p) : m.ordered s (.number x) (.number y) = p := by
    rw [hp, Number.isNaN_of_isFinite hx, Number.isNaN_of_isFinite hy]
    rfl
  simp only [numericSymbols, List.mem_cons, List.not_mem_nil, or_false] at hsymbol
  rcases hsymbol with rfl | rfl | rfl | rfl | rfl | rfl | rfl | rfl | rfl | rfl | rfl | rfl
  all_goals refine ⟨?_, trivial, rfl⟩
  all_goals first | rfl | exact congrArg Value.boolean (hordered rfl)

/-- Numbers and texts are added alike in all memories. -/
theorem Memory.Agrees.add_eq (h : m.Agrees L V m') {a b : Value} (ha : a.isNumberOrString = true)
    (hb : b.isNumberOrString = true) : m.add a b = m'.add a b ∧ (m.add a b).Simple := by
  have htext {v : Value} (hv : v.isNumberOrString = true) : m.text v = m'.text v :=
    h.text_eq (Value.isNumberOrString_simple hv).stored
  have hnumber {v : Value} (hv : v.isNumberOrString = true) : m.toNumber v = m'.toNumber v := by
    cases v <;> first | simp only [Memory.toNumber, Memory.settle, Memory.follow]; done | cases hv
  unfold Memory.add
  rw [htext ha, htext hb, hnumber ha, hnumber hb]
  refine ⟨rfl, ?_⟩
  split <;> exact ⟨trivial, rfl⟩

/-- The strict arithmetic and ordering operators accept finite numbers only. -/
theorem Memory.of_checked_numeric {symbol : String} (hsymbol : symbol ∈ numericSymbols) {a b v : Value}
    (hv : m.checked symbol a b = .ok v) : ∃ x y, a = .number x ∧ b = .number y ∧
      Number.isFinite x = true ∧ Number.isFinite y = true ∧ v = numeric symbol x y := by
  have hnumeric : numericSymbols.contains symbol = true := by simpa using hsymbol
  unfold Memory.checked at hv
  rw [if_pos hnumeric] at hv
  cases hx : m.finiteNumber symbol a with
  | error r =>
    rw [hx] at hv
    cases hv
  | ok x =>
    cases hy : m.finiteNumber symbol b with
    | error r =>
      rw [hx, hy] at hv
      cases hv
    | ok y =>
      obtain ⟨rfl, hxf⟩ := Memory.of_finiteNumber_eq_ok hx
      obtain ⟨rfl, hyf⟩ := Memory.of_finiteNumber_eq_ok hy
      rw [hx, hy] at hv
      change (if _ then _ else _) = _ at hv
      split at hv
      · cases hv
      · cases hv
        exact ⟨x, y, rfl, rfl, hxf, hyf, rfl⟩

/-- The strict sum accepts numbers and texts only. -/
theorem Memory.of_checked_sum {symbol : String} (hsymbol : symbol = "+" ∨ symbol = "+=") {a b v : Value}
    (hv : m.checked symbol a b = .ok v) :
    a.isNumberOrString = true ∧ b.isNumberOrString = true ∧ v = m.add a b := by
  have hsum : m.checked symbol a b =
      if !a.isNumberOrString then .error (m.notA symbol a "a number or string")
      else if !b.isNumberOrString then .error (m.notA symbol b "a number or string")
      else .ok (m.add a b) := by
    rcases hsymbol with rfl | rfl <;> rfl
  rw [hsum] at hv
  split at hv
  · cases hv
  · rename_i ha
    split at hv
    · cases hv
    · rename_i hb
      cases hv
      exact ⟨by simpa using ha, by simpa using hb, rfl⟩

/-- Without checks numbers and texts are added as with checks. -/
theorem Memory.unchecked_sum {symbol : String} (hsymbol : symbol = "+" ∨ symbol = "+=") {a b : Value}
    (ha : a.isNumberOrString = true) (hb : b.isNumberOrString = true) : m.unchecked symbol a b = m.add a b := by
  have hlenient : m.unchecked symbol a b = if a.isNumberOrString && b.isNumberOrString then m.add a b
      else m.add (m.toPrimitive a) (m.toPrimitive b) := by
    rcases hsymbol with rfl | rfl <;> rfl
  rw [hlenient, ha, hb]
  rfl

/-- What the strict form of an operator gives, the lenient form gives too. -/
theorem Memory.Agrees.unchecked_eq (h : m.Agrees L V m') {symbol : String} (hsymbol : isLogical symbol = false)
    {a a' b b' v : Value} (ha : Stored L a a') (hb : Stored L b b') (hv : m.checked symbol a b = .ok v) :
    m'.unchecked symbol a' b' = v ∧ v.Simple := by
  by_cases hnumeric : symbol ∈ numericSymbols
  · obtain ⟨x, y, rfl, rfl, hx, hy, rfl⟩ := Memory.of_checked_numeric hnumeric hv
    rw [ha.number, hb.number]
    exact Memory.unchecked_of_numeric hnumeric hx hy
  by_cases hsum : symbol = "+" ∨ symbol = "+="
  · obtain ⟨hna, hnb, rfl⟩ := Memory.of_checked_sum hsum hv
    obtain ⟨hadd, hsimple⟩ := h.add_eq hna hnb
    rw [ha.eq_of_isNumberOrString hna, hb.eq_of_isNumberOrString hnb, Memory.unchecked_sum hsum hna hnb, hadd]
    rw [hadd] at hsimple
    exact ⟨rfl, hsimple⟩
  -- The comparisons are what is left.
  have hequal := h.looselyEqual_eq ha hb
  have hrest : m.checked symbol a b =
      if symbol = "==" then .ok (.boolean (m.looselyEqual a b))
      else if symbol = "!=" then .ok (.boolean (!m.looselyEqual a b))
      else .error (.internal, "Unknown operator <var>" ++ symbol ++ "</var>") := by
    unfold isLogical at hsymbol
    unfold Memory.checked
    rw [if_neg (by simpa using hnumeric), if_neg (by simpa using hsum), if_neg (by simpa using hsymbol)]
  rw [hrest] at hv
  split at hv
  · rename_i heq
    cases hv
    subst heq
    exact ⟨by rw [hequal]; rfl, trivial, rfl⟩
  · split at hv
    · rename_i hne
      cases hv
      subst hne
      exact ⟨by rw [hequal]; rfl, trivial, rfl⟩
    · cases hv

/-- What the strict form of an operator before an operand gives, the lenient form gives too. -/
theorem Memory.uncheckedUnary_eq {symbol : String} {a a' v : Value} (ha : Stored L a a')
    (hv : m.checkedUnary symbol a = .ok v) : m'.uncheckedUnary symbol a' = v ∧ v.Simple := by
  unfold Memory.checkedUnary at hv
  split at hv
  · split at hv
    · rename_i hnot
      cases hv
      rw [ha.boolean]
      unfold Memory.uncheckedUnary
      rw [if_pos hnot]
      exact ⟨rfl, trivial, rfl⟩
    · cases hv
  · split at hv
    · cases hv
    · rename_i hnot
      rw [ha.number]
      unfold Memory.uncheckedUnary
      rw [if_neg hnot]
      split at hv
      · rename_i hminus
        cases hv
        rw [if_pos hminus]
        exact ⟨rfl, trivial, rfl⟩
      · rename_i hminus
        cases hv
        rw [if_neg hminus]
        exact ⟨rfl, trivial, rfl⟩
  · cases hv

/-! ## Hosts -/

/-- The strict arguments of a mathematical function are numbers. -/
theorem MathFunction.of_numbers_eq_ok {f : MathFunction} {vs : List Value} {xs : List Float}
    (h : f.numbers true m vs = .ok xs) : vs = xs.map Value.number := by
  induction vs generalizing xs with
  | nil =>
    cases h
    rfl
  | cons v vs ih =>
    cases hrest : f.numbers true m vs with
    | error e => cases v <;> (simp only [numbers, hrest] at h; cases h)
    | ok ys =>
      cases v <;> (simp only [numbers, hrest] at h; cases h)
      rw [ih hrest, List.map_cons]

/-- Numbers are accepted as arguments of a mathematical function. -/
theorem MathFunction.numbers_map_number (f : MathFunction) (strict : Bool) (m : Memory) (xs : List Float) :
    f.numbers strict m (xs.map Value.number) = .ok xs := by
  induction xs with
  | nil => rfl
  | cons x xs ih =>
    rw [List.map_cons]
    simp only [numbers, ih]
    rfl

/-- Only the same numbers correspond to numbers. -/
theorem forall₂_eq_map_number {vs : List Value} {xs : List Float}
    (h : List.Forall₂ (Stored L) (xs.map Value.number) vs) : vs = xs.map Value.number := by
  induction xs generalizing vs with
  | nil =>
    cases h
    rfl
  | cons x xs ih =>
    rw [List.map_cons] at h
    obtain ⟨w, ws, hw, hws, rfl⟩ := List.forall₂_cons_left_iff.mp h
    rw [hw.number, ih hws, List.map_cons]

/-- The arguments that a function of `Math` accepts when it is strict, it uses when it is not. -/
theorem MathFunction.arguments_lenient {f : MathFunction} {vs ws us : List Value}
    (hvw : List.Forall₂ (Stored L) vs ws) (h : f.arguments true vs = .ok us) :
    ∃ us', f.arguments false ws = .ok us' ∧ List.Forall₂ (Stored L) us us' := by
  unfold arguments at h ⊢
  generalize f.arity? = arity at h ⊢
  cases arity with
  | none =>
    cases h
    exact ⟨ws, rfl, hvw⟩
  | some n =>
    simp only [Bool.true_or, Bool.and_true, bne_iff_ne, ne_eq, ite_not] at h
    split at h
    · rename_i hn
      cases h
      refine ⟨ws.take n, ?_, List.forall₂_take n hvw⟩
      simp [← hvw.length_eq, hn]
    · cases h

/-- What a function of `Math` gives when it is strict, it gives when it is not. -/
theorem MathFunction.call_lenient {f : MathFunction} {vs ws : List Value} {v : Value}
    (hvw : List.Forall₂ (Stored L) vs ws) (h : f.call true m vs = .ok v) :
    f.call false m' ws = .ok v ∧ v.Simple := by
  unfold MathFunction.call at h ⊢
  cases hus : f.arguments true vs with
  | error e =>
    rw [hus] at h
    cases h
  | ok us =>
    obtain ⟨us', hus', huu'⟩ := arguments_lenient hvw hus
    rw [hus] at h
    change (f.numbers true m us >>= _) = _ at h
    cases hxs : f.numbers true m us with
    | error e =>
      rw [hxs] at h
      cases h
    | ok xs =>
      rw [hxs] at h
      cases h
      rw [of_numbers_eq_ok hxs] at huu'
      rw [hus', forall₂_eq_map_number huu']
      change (f.numbers false m' (xs.map Value.number) >>= _) = _ ∧ _
      rw [numbers_map_number]
      exact ⟨rfl, trivial, rfl⟩

/-- A color that is set in one memory is set in the other. -/
theorem Console.setColor_lenient {c c' : Console} {v w : Value} (hvw : Stored L v w)
    (h : c.setColor m v = .ok c') : c.setColor m' w = .ok c' := by
  cases v with
  | string t =>
    rw [hvw.string]
    unfold Console.setColor at h ⊢
    cases hcolor : parseColor t with
    | none =>
      simp only [hcolor] at h
      cases h
    | some hex =>
      simp only [hcolor] at h ⊢
      exact h
  | _ => cases h

/-- What a function of the console does in one memory it does in the other. -/
theorem Memory.Agrees.console_call (h : m.Agrees L V m') {c c' : Console} {f : ConsoleFunction}
    {vs ws : List Value} (hvw : List.Forall₂ (Stored L) vs ws) (hc : c.call m f vs = .ok c') :
    c.call m' f ws = .ok c' := by
  cases f with
  | log =>
    have htexts : vs.map m.text = ws.map m'.text := map_eq_map_of_forall₂ hvw fun _ _ hv => h.text_eq hv
    simp only [Console.call, htexts] at hc ⊢
    exact hc
  | clear =>
    cases hvw with
    | nil => exact hc
    | cons _ _ => cases hc
  | setColor =>
    cases hvw with
    | nil => cases hc
    | cons hv hvs =>
      cases hvs with
      | nil => exact Console.setColor_lenient hv hc
      | cons _ _ => cases hc

end Primer
