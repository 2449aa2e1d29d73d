import Primer.Host.Standard

/-!
# Writing a value never breaks down

A number is written by cutting its digits, and a text by looking up the digits of its escapes. Neither breaks
down, whatever the number and the text are:

* the point of a number that is written without an exponent lies inside its digits wherever they are cut, and
  the zeros before and behind them are never fewer than none;
* a number has a first digit, behind which it is cut to write an exponent;
* a character that is escaped by its digits is below the space, so both are in the table.

So the text and the short form of a value are there in every memory: `render?`, `quoteJson?`, `text?`,
`describe?` and `writeOut?` give what `render`, `quoteJson`, `text` and `describe` give.
-/

set_option autoImplicit false

namespace Primer

/-! ## Numbers -/

namespace Number

/-- Digits can be cut where the point goes. -/
theorem positional?_eq (ds : List Char) (point : Int) : positional? ds point = .ok (positional ds point) := by
  unfold positional? positional
  by_cases hbehind : (ds.length : Int) ≤ point
  · have hcount : (point - ds.length).toNat = point.toNat - ds.length := by omega
    rw [if_pos hbehind, if_pos hbehind, repeated_eq (by omega), hcount]
    rfl
  · rw [if_neg hbehind, if_neg hbehind]
    by_cases hinside : 0 < point
    · rw [if_pos hinside, if_pos hinside, cutTo_eq (by omega) (by omega), cutFrom_eq (by omega) (by omega)]
      rfl
    · rw [if_neg hinside, if_neg hinside, repeated_eq (by omega)]
      rfl

/-- Digits that are there can be cut behind the first of them. -/
theorem scientific?_eq (width : Nat) {ds : List Char} (h : ds ≠ []) (point : Int) :
    scientific? width ds point = .ok (scientific width ds point) := by
  match ds, h with
  | [d], _ => rfl
  | d :: d' :: ds, _ =>
    have hmore : (d :: d' :: ds).length ≠ 1 := by simp
    have hone : (1 : Int) ≤ (d :: d' :: ds).length := by
      rw [List.length_cons, List.length_cons]
      omega
    simp only [scientific?, if_neg hmore, cutTo_eq Int.one_nonneg hone, cutFrom_eq Int.one_nonneg hone]
    rfl

/-- The digits of a decimal can be cut in every layout. -/
theorem Layout.write?_eq (l : Layout) (d : Decimal) : l.write? d = .ok (l.write d) := by
  have hdigits : digitChars d.digits ≠ [] := Nat.toDigits_ne_nil
  simp only [Layout.write?, Layout.write, positional?_eq, scientific?_eq _ hdigits]
  split <;> rfl

/-- Every number can be written. -/
theorem render?_eq (x : Float) : render? x = .ok (render x) := by
  unfold render? render
  by_cases hnan : isNaN x = true
  · rw [if_pos hnan, if_pos hnan]
  · rw [if_neg hnan, if_neg hnan]
    by_cases hinfinite : isInfinite x = true
    · rw [if_pos hinfinite, if_pos hinfinite]
    · rw [if_neg hinfinite, if_neg hinfinite]
      by_cases hzero : (magnitude x).mantissa = 0
      · rw [if_pos hzero, if_pos hzero]
      · rw [if_neg hzero, if_neg hzero, Layout.write?_eq]
        rfl

end Number

/-! ## Texts -/

/-- A list can be written if each of its entries can. -/
theorem mapM_eq {α β : Type} {f : α → Except Breakdown β} {g : α → β} (h : ∀ x, f x = .ok (g x))
    (xs : List α) : xs.mapM f = .ok (xs.map g) := by
  rw [show f = fun x => pure (g x) from funext h, List.mapM_pure]
  rfl

namespace Text

/-- Every character can be written inside a JSON string. -/
theorem jsonChar?_eq (c : Char) : jsonChar? c = .ok (jsonChar c) := by
  by_cases hcontrol : c.toNat < 0x20
  · have hall : ∀ n < 0x20, (jsonChar? (Char.ofNat n)).toOption = some (jsonChar (Char.ofNat n)) := by
      decide +kernel
    have hc := hall c.toNat hcontrol
    rw [Char.ofNat_toNat] at hc
    generalize jsonChar? c = written at hc
    cases written with
    | error b => cases hc
    | ok cs => exact congrArg Except.ok (Option.some.inj hc)
  · simp only [jsonChar?, hcontrol, decide_false, Bool.false_and, Bool.false_eq_true, if_false]

/-- Every text can be written as a JSON string. -/
theorem quoteJson?_eq (s : String) : quoteJson? s = .ok (quoteJson s) := by
  rw [quoteJson?, mapM_eq jsonChar?_eq, quoteJson, List.flatMap_def]
  rfl

end Text

/-! ## Values -/

namespace Memory

/-- The text of a value can be written as far as it goes. -/
theorem textWithin?_eq (m : Memory) (steps : Nat) (joining : List ArrayRef) (v : Value) :
    m.textWithin? steps joining v = .ok (m.textWithin steps joining v) := by
  induction steps generalizing joining v with
  | zero => rfl
  | succ steps ih =>
    cases v with
    | number x => exact Number.render?_eq x
    | cell r => exact ih joining (m.read r)
    | array a =>
      simp only [textWithin?, textWithin]
      by_cases hjoining : joining.contains a = true
      · rw [if_pos hjoining, if_pos hjoining]
      · rw [if_neg hjoining, if_neg hjoining]
        refine congrArg (fun parts => parts >>= fun parts => Except.ok (",".intercalate parts))
          (mapM_eq ?_ (m.values a))
        intro e
        cases e <;> first | rfl | exact ih ..
    | _ => rfl

/-- The text of a value can be written. -/
theorem text?_eq (m : Memory) (v : Value) : m.text? v = .ok (m.text v) := m.textWithin?_eq _ _ v

/-- The short form of a value can be written. -/
theorem describe?_eq (m : Memory) (v : Value) : m.describe? v = .ok (m.describe v) := by
  unfold describe? describe
  cases m.settle v with
  | number x =>
    show (if Number.isFinite x = true then _ else _) = Except.ok (if Number.isFinite x = true then _ else _)
    rw [Number.render?_eq]
    split <;> rfl
  | string s => exact Text.quoteJson?_eq s
  | _ => rfl

/-- Operands can be written. -/
theorem writeOut?_eq (m : Memory) (operands : List Value) : m.writeOut? operands = .ok () := by
  have hall : ∀ vs : List Value, (vs.forM fun v => do
      let _ ← m.text? v
      let _ ← m.describe? v) = (.ok () : Except Breakdown Unit) := by
    intro vs
    induction vs with
    | nil => rfl
    | cons v vs ih =>
      show (m.text? v >>= fun _ => m.describe? v >>= fun _ => pure ()) >>= (fun _ => vs.forM _) = _
      rw [text?_eq, describe?_eq]
      exact ih
  rw [writeOut?, hall]
  split <;> rfl

/-- The reason why a length is refused can be written. -/
theorem lengthRefusal?_eq (m : Memory) (v : Value) (fault : LengthFault) :
    m.lengthRefusal? v fault = .ok (m.lengthRefusal v fault) := by
  cases fault with
  | tooLong => rfl
  | invalid =>
    rw [lengthRefusal?, describe?_eq]
    rfl

end Memory

/-! ## The standard hosts -/

/-- The console writes out a color that it refuses. -/
theorem Console.setColor?_eq (c : Console) (m : Memory) (v : Value) : c.setColor? m v = .ok (c.setColor m v) := by
  unfold setColor?
  rw [m.describe?_eq]
  cases c.setColor m v <;> rfl

/-- The console writes out whatever it is called with. -/
theorem Console.call?_eq (c : Console) (m : Memory) (f : ConsoleFunction) (args : List Value) :
    c.call? m f args = .ok (c.call m f args) := by
  cases f with
  | log =>
    rw [call?, mapM_eq m.text?_eq]
    rfl
  | clear => rfl
  | setColor =>
    match args with
    | [v] => exact c.setColor?_eq m v
    | [] | _ :: _ :: _ => rfl

/-- A function of `Math` writes out whatever it is called with. -/
theorem MathFunction.call?_eq (f : MathFunction) (strict : Bool) (m : Memory) (args : List Value) :
    f.call? strict m args = .ok (f.call strict m args) := by
  rw [call?, m.writeOut?_eq]
  rfl

namespace Hosts

variable {τ : Type} (extras : Extras τ) (s : HostState τ) (m : Memory)

/-- A function of the console answers, or it refuses its arguments. -/
theorem call_console (f : ConsoleFunction) (view : View) (args : List Value) :
    (standard extras).call (.console f) view s m args =
      match s.console.call m f args with
      | .ok c => .finish (.ok .absent) { s with console := c } m
      | .error text => .finish (.error (.message text)) s m := by
  simp only [standard, Console.call?_eq]
  cases s.console.call m f args <;> rfl

/-- A function of `Math` answers, or it refuses its arguments. -/
theorem call_math (f : MathFunction) (view : View) (args : List Value) :
    (standard extras).call (.math f) view s m args =
      match f.call (view.strategy != .raw) m args with
      | .ok v => .finish (.ok v) s m
      | .error text => .finish (.error (.message text)) s m := by
  simp only [standard, MathFunction.call?_eq]
  cases f.call (view.strategy != .raw) m args <;> rfl

/-- The color of the console is set, or the value is refused. -/
theorem set_color (view : View) (v : Value) :
    (standard extras).set .color view s m v =
      match s.console.setColor m v with
      | .ok c => some (.finish (.ok .absent) { s with console := c } m)
      | .error text => some (.finish (.error (.message text)) s m) := by
  simp only [standard, Console.setColor?_eq]
  cases s.console.setColor m v <;> rfl

end Hosts

end Primer
