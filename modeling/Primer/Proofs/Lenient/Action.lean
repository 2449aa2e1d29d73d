import Primer.Proofs.Lenient.State
import Primer.Proofs.Run.Plain

/-!
# What the nodes do on two sides

Each action of the evaluator is repeated by its unchecked form: where the checked form accepts its operands,
the unchecked one has the same effect on a state that agrees. The hosts are the standard ones.
-/

set_option autoImplicit false

namespace Primer

open Run

variable {F : Option CommandFilter} {l : Limits} {L : Link} {s r : RunState (HostState Unit)}

/-! ## Records and counters -/

/-- Recording a command keeps the states in agreement. -/
theorem record_repeats (h : s.Agrees L r) (info : Info) (tag : String) :
    Repeats 0 L s r (fun _ _ _ => True) (record (.plain .safe F l) info tag s)
      (record (.plain .raw F l) info tag r) := by
  have hrecorded : RunState.Agrees L (s.withCommand ⟨info.id, tag⟩) r :=
    ⟨h.host, h.ticks, h.asked, h.calls, h.scopes, h.memory⟩
  have hchecked : (Setting.plain .safe F l).strategy ≠ .raw := by simp [Setting.plain]
  rw [record_checked hchecked]
  by_cases hallowed : CommandFilter.allowsTag (Setting.plain .safe F l).filter tag = true
  · rw [if_pos hallowed]
    exact .done (.refl L) hrecorded rfl rfl trivial
  · rw [if_neg hallowed]
    exact .failed

/-- Narrating a step keeps the states in agreement. -/
theorem narrate_repeats (h : s.Agrees L r) (category : Category) (node : NodeId)
    (message message' : Memory → String) (changes changes' : Unit → List Change) :
    Repeats 0 L s r (fun _ _ _ => True) (narrate (.plain .safe F l) category node message changes s)
      (narrate (.plain .raw F l) category node message' changes' r) :=
  .value h trivial

/-- A tick counts the same on both sides, and stops both or none. -/
theorem tick_repeats (h : s.Agrees L r) (info : Info) :
    Repeats 0 L s r (fun _ _ _ => True) (tick (.plain .safe F l) info s) (tick (.plain .raw F l) info r) := by
  unfold tick
  dsimp only [Setting.plain]
  rw [h.ticks, h.asked]
  cases l.stopped s.ticks with
  | some reason => exact .failed
  | none =>
    dsimp only
    by_cases hspent : l.isSpent (s.ticks + 1) = true
    · simp only [hspent, if_true]
      exact .failed
    · simp only [hspent]
      cases l.limiter with
      | none => exact .done (.refl L) ⟨h.host, rfl, rfl, h.calls, h.scopes, h.memory⟩ rfl rfl trivial
      | some limiter =>
        dsimp only
        cases limiter s.asked info.id with
        | none => exact .done (.refl L) ⟨h.host, rfl, rfl, h.calls, h.scopes, h.memory⟩ rfl rfl trivial
        | some text => exact .failed

/-! ## Taking values -/

/-- A host variable holds corresponding values. -/
theorem readHost_repeats (h : s.Agrees L r) (e : Expr) (v : HostVariable) :
    Repeats 0 L s r Stored (readHost (.plain .safe F l) e v s) (readHost (.plain .raw F l) e v r) := by
  have hdone (w : Value) (hw : w.Simple) : Repeats 0 L s r Stored (.done w s) (.done w r) := .value h hw.stored
  obtain ⟨key, name⟩ := v
  cases key with
  | color =>
    have hcolor := hdone (.string s.host.console.shownColor) ⟨trivial, rfl⟩
    have hraw : readHost (.plain .raw F l) e ⟨.color, name⟩ r =
        .done (.string r.host.console.shownColor) r := rfl
    rw [hraw, h.host]
    exact hcolor
  | math c => exact hdone (.number c.value) ⟨trivial, rfl⟩
  | extra n => exact hdone .undefined ⟨trivial, rfl⟩

/-- Taking what a cell holds. -/
theorem takeChecked_repeats (h : s.Agrees L r) (e : Expr) {v w : Value} (hvw : Stored L v w) :
    Repeats 0 L s r Stored (takeChecked (.plain .safe F l) e v s) (.done (present w) r) := by
  have hsettled := hvw.settled
  rcases hvw.cases with ⟨rfl, -⟩ | ⟨a, b, rfl, rfl, -⟩
  · cases w with
    | absent | undefined | null => exact .failed
    | number x =>
      unfold takeChecked
      by_cases hx : Number.isFinite x = true
      · simp only [hx, if_true]
        exact .value h hvw
      · simp only [hx]
        exact .failed
    | string | boolean | array | object | function | hostFunction => exact .value h hvw
    | cell | hostVariable | arrayLength | textLength | pending => cases hsettled
  · exact .value h hvw

/-- Corresponding places are taken as corresponding values. -/
theorem take_repeats (h : s.Agrees L r) (e : Expr) {v w : Value} (hvw : Place L s.scopes r.scopes v w) :
    Repeats 0 L s r Stored (take (.plain .safe F l) e v s) (take (.plain .raw F l) e w r) := by
  change Repeats 0 L s r Stored (takeChecked (.plain .safe F l) e (opened s.memory v) s)
    (takeUnchecked (.plain .raw F l) e w r)
  cases hvw with
  | @«variable» c d hcd =>
    obtain ⟨x, y, hx, hy, hxy⟩ := h.memory.var hcd
    have hopened : opened s.memory (.cell c) = x := by simp [opened, Memory.read, hx]
    have hread : takeUnchecked (.plain .raw F l) e (.cell d) r = .done (present y) r := by
      simp [takeUnchecked, asks, Memory.read, hy]
    rw [hopened, hread]
    cases hxy with
    | stored hxy => exact takeChecked_repeats h e hxy
    | undefined => exact .failed
  | value hvw =>
    cases hvw with
    | @cell c d hcd =>
      exact takeChecked_repeats h e (h.memory.read_stored hcd)
    | array hab => exact .value h ⟨.array hab, rfl⟩
    | @arrayLength a b hab =>
      have hsize : takeUnchecked (.plain .raw F l) e (.arrayLength b) r =
          .done (.number (Number.ofLength (r.memory.size b))) r := rfl
      rw [hsize, h.memory.size_eq hab]
      exact .value h ⟨.same trivial, rfl⟩
    | pending => exact .failed
    | same hv =>
      cases v with
      | absent | undefined | null => exact .failed
      | number x =>
        have hx : Stored L (.number x) (.number x) := ⟨.same trivial, rfl⟩
        exact takeChecked_repeats h e hx
      | string | boolean | object | function | hostFunction => exact .value h ⟨.same hv, rfl⟩
      | hostVariable x => exact readHost_repeats (F := F) (l := l) h e x
      | textLength t => exact .value h ⟨.same trivial, rfl⟩
      | array | cell | arrayLength | pending => exact hv.elim

/-- A place stays one while computations only add to memory. -/
theorem Place.carry {L' : Link} {s' r' : RunState (HostState Unit)} (hL : L.Within L') (hs : s.Keeps 0 s')
    (hr : r.Keeps 0 r') {v w : Value} (h : Place L s.scopes r.scopes v w) : Place L' s'.scopes r'.scopes v w := by
  rw [hs.scopes_eq, hr.scopes_eq]
  exact h.mono hL

/-- Several corresponding places are taken as corresponding values. -/
theorem takeAll_repeats (h : s.Agrees L r) (es : List Expr) {vs ws : List Value}
    (hvw : List.Forall₂ (Place L s.scopes r.scopes) vs ws) :
    Repeats 0 L s r (fun L' => List.Forall₂ (Stored L')) (takeAll (.plain .safe F l) es vs s)
      (takeAll (.plain .raw F l) es ws r) := by
  induction es generalizing L s r vs ws with
  | nil => exact .value h .nil
  | cons e es ih =>
    cases hvw with
    | nil => exact .value h .nil
    | cons hv hvs =>
      refine (take_repeats h e hv).bind fun hL h' hs hr ha => ?_
      refine (ih h' (hvs.imp fun _ _ hx => hx.carry hL hs hr)).bind fun hL' h'' _ _ has => ?_
      exact .value h'' (.cons (ha.mono hL') has)

/-- A note on a failure does not matter, since only what the checked run is done with is repeated. -/
theorem Repeats.onFailure {α α' : Type} {k : Nat} {Q : Link → α → α' → Prop}
    {x : Run (HostState Unit) α} {y : Run (HostState Unit) α'} (h : Repeats k L s r Q (x s) (y r))
    (note note' : Run (HostState Unit) Unit) :
    Repeats k L s r Q (Run.onFailure x note s) (Run.onFailure y note' r) := by
  unfold Run.onFailure
  generalize x s = o at h
  generalize y r = o' at h
  cases h with
  | done hL hagree hs hr hab => exact .done hL hagree hs hr hab
  | @failed _ s' =>
    dsimp only
    generalize note s' = noted
    cases noted with
    | exhausted => exact .exhausted
    | done | failed => exact .failed
  | exhausted => exact .exhausted

/-! ## Operators -/

/-- Corresponding operands are taken as corresponding values. -/
theorem takeOperands_repeats (h : s.Agrees L r) (info : Info) (symbol : String) (left right : Expr)
    {a a' b b' : Value} (ha : Place L s.scopes r.scopes a a') (hb : Place L s.scopes r.scopes b b') :
    Repeats 0 L s r (fun L' p q => Stored L' p.1 q.1 ∧ Stored L' p.2 q.2)
      (takeOperands (.plain .safe F l) info symbol left right a b s)
      (takeOperands (.plain .raw F l) info symbol left right a' b' r) := by
  refine ((take_repeats h left ha).onFailure _ _).bind fun hL h' hs hr hx => ?_
  refine ((take_repeats h' right (hb.carry hL hs hr)).onFailure _ _).bind fun hL' h'' _ _ hy => ?_
  exact .value h'' ⟨hx.mono hL', hy⟩

/-- With checks a binary operation is the checked one of the memory. -/
theorem binaryValue_safe (info : Info) (symbol : String) (a b : Value) (s : RunState (HostState Unit)) :
    binaryValue (.plain .safe F l) info symbol a b s = (match s.memory.checked symbol a b with
      | .ok v => .done v s
      | .error refusal => raiseRefusal info refusal s) := by
  change (match s.memory.checked symbol a b with
    | .ok v => (pure v : Run _ Value)
    | .error refusal => raiseRefusal info refusal) s = _
  cases s.memory.checked symbol a b <;> rfl

/-- A binary operation gives corresponding values. -/
theorem binaryValue_repeats (h : s.Agrees L r) (info : Info) {symbol : String}
    (hsymbol : isLogical symbol = false) {a a' b b' : Value} (ha : Stored L a a') (hb : Stored L b b') :
    Repeats 0 L s r Stored (binaryValue (.plain .safe F l) info symbol a b s)
      (binaryValue (.plain .raw F l) info symbol a' b' r) := by
  have hraw : binaryValue (.plain .raw F l) info symbol a' b' r =
      .done (r.memory.unchecked symbol a' b') r := rfl
  rw [hraw, binaryValue_safe]
  cases hv : s.memory.checked symbol a b with
  | error refusal => exact .failed
  | ok v =>
    obtain ⟨heq, hsimple⟩ := h.memory.unchecked_eq hsymbol ha hb hv
    rw [heq]
    exact .value h hsimple.stored

/-- A recorded binary operation gives corresponding values. -/
theorem applyBinary_repeats (h : s.Agrees L r) (info : Info) {symbol : String}
    (hsymbol : isLogical symbol = false) {a a' b b' : Value} (ha : Stored L a a') (hb : Stored L b b') :
    Repeats 0 L s r Stored (applyBinary (.plain .safe F l) info symbol a b s)
      (applyBinary (.plain .raw F l) info symbol a' b' r) := by
  rw [applyBinary_eq, applyBinary_eq]
  exact (record_repeats h info _).bind fun hL h' _ _ _ =>
    binaryValue_repeats h' info hsymbol (ha.mono hL) (hb.mono hL)

/-- A binary operation on corresponding places gives corresponding values. -/
theorem binaryAction_repeats (h : s.Agrees L r) (info : Info) (left : Expr) {symbol : String}
    (right : Expr) (hsymbol : isLogical symbol = false) {a a' b b' : Value}
    (ha : Place L s.scopes r.scopes a a') (hb : Place L s.scopes r.scopes b b') :
    Repeats 0 L s r Stored (binaryAction (.plain .safe F l) info left symbol right a b s)
      (binaryAction (.plain .raw F l) info left symbol right a' b' r) := by
  rw [binaryAction_eq, binaryAction_eq]
  refine (takeOperands_repeats h info symbol left right ha hb).bind fun {_ _ _ p q} _ h' _ _ hpq => ?_
  obtain ⟨x, y⟩ := p
  obtain ⟨x', y'⟩ := q
  refine (applyBinary_repeats h' info hsymbol hpq.1 hpq.2).bind fun _ h' _ _ hv => ?_
  refine (narrate_repeats h' ..).bind fun hL h' _ _ _ => ?_
  exact .value h' (hv.mono hL)

/-- With checks a sign is the checked one of the memory. -/
theorem unaryValue_safe (info : Info) (symbol : String) (a : Value) (s : RunState (HostState Unit)) :
    unaryValue (.plain .safe F l) info symbol a s = (match s.memory.checkedUnary symbol a with
      | .ok v => .done v s
      | .error refusal => raiseRefusal info refusal s) := by
  change (match s.memory.checkedUnary symbol a with
    | .ok v => (pure v : Run _ Value)
    | .error refusal => raiseRefusal info refusal) s = _
  cases s.memory.checkedUnary symbol a <;> rfl

/-- A sign gives corresponding values. -/
theorem unaryValue_repeats (h : s.Agrees L r) (info : Info) (symbol : String) {a a' : Value}
    (ha : Stored L a a') :
    Repeats 0 L s r Stored (unaryValue (.plain .safe F l) info symbol a s)
      (unaryValue (.plain .raw F l) info symbol a' r) := by
  have hraw : unaryValue (.plain .raw F l) info symbol a' r =
      .done (r.memory.uncheckedUnary symbol a') r := rfl
  rw [hraw, unaryValue_safe]
  cases hv : s.memory.checkedUnary symbol a with
  | error refusal => exact .failed
  | ok v =>
    have hunary : r.memory.uncheckedUnary symbol a' = v ∧ v.Simple := Memory.uncheckedUnary_eq ha hv
    obtain ⟨heq, hsimple⟩ := hunary
    rw [heq]
    exact .value h hsimple.stored

/-- A sign on corresponding places gives corresponding values. -/
theorem unaryAction_repeats (h : s.Agrees L r) (info : Info) (symbol : String) (operand : Expr)
    {a a' : Value} (ha : Place L s.scopes r.scopes a a') :
    Repeats 0 L s r Stored (unaryAction (.plain .safe F l) info symbol operand a s)
      (unaryAction (.plain .raw F l) info symbol operand a' r) := by
  rw [unaryAction_eq, unaryAction_eq]
  refine (record_repeats h info _).bind fun hL h' hs hr _ => ?_
  refine (take_repeats h' operand (ha.carry hL hs hr)).bind fun _ h' _ _ hx => ?_
  refine (unaryValue_repeats h' info symbol hx).bind fun _ h' _ _ hv => ?_
  refine (narrate_repeats h' ..).bind fun hL h' _ _ _ => ?_
  exact .value h' (hv.mono hL)

/-- The value of an assignment corresponds. -/
theorem assignedAction_repeats (h : s.Agrees L r) {a : Assignment} (hsymbol : isLogical a.symbol = false)
    {p p' g g' : Value} (hp : Place L s.scopes r.scopes p p') (hg : Place L s.scopes r.scopes g g') :
    Repeats 0 L s r Stored (assignedAction (.plain .safe F l) a p g s)
      (assignedAction (.plain .raw F l) a p' g' r) := by
  unfold assignedAction
  by_cases hplain : a.symbol = "="
  · rw [if_pos hplain, if_pos hplain]
    refine (record_repeats h a.info "=").bind fun hL h' hs hr _ => ?_
    exact take_repeats h' a.value (hg.carry hL hs hr)
  · rw [if_neg hplain, if_neg hplain]
    refine (takeOperands_repeats h a.info a.symbol a.target a.value hp hg).bind
      fun {_ _ _ x y} _ h' _ _ hxy => ?_
    obtain ⟨x₁, x₂⟩ := x
    obtain ⟨y₁, y₂⟩ := y
    exact applyBinary_repeats h' a.info hsymbol hxy.1 hxy.2

/-- The value of an increment or decrement corresponds. -/
theorem bumpAction_repeats (h : s.Agrees L r) (info : Info) (target : Expr) (symbol : String)
    {p p' : Value} (hp : Place L s.scopes r.scopes p p') :
    Repeats 0 L s r Stored (bumpAction (.plain .safe F l) info target symbol p s)
      (bumpAction (.plain .raw F l) info target symbol p' r) := by
  rw [bumpAction_eq, bumpAction_eq]
  refine (record_repeats h info _).bind fun hL h' hs hr _ => ?_
  refine (take_repeats h' target (hp.carry hL hs hr)).bind fun {_ _ _ x y} _ h' _ _ hxy => ?_
  cases x with
  | number x =>
    rw [hxy.number]
    exact .value h' ⟨.same trivial, rfl⟩
  | _ => exact .failed

/-- A test that holds with checks holds without. -/
theorem testAction_repeats (h : s.Agrees L r) (info : Info) (tag : String) (e : Expr) {c c' : Value}
    (hc : Place L s.scopes r.scopes c c') :
    Repeats 0 L s r (fun _ b b' => b' = b) (testAction (.plain .safe F l) info tag e c s)
      (testAction (.plain .raw F l) info tag e c' r) := by
  rw [testAction_eq, testAction_eq]
  refine (record_repeats h info _).bind fun hL h' hs hr _ => ?_
  refine (take_repeats h' e (hc.carry hL hs hr)).bind fun {_ _ _ x y} _ h' _ _ hxy => ?_
  cases x with
  | boolean b =>
    rw [hxy.boolean]
    exact .value h' rfl
  | _ => exact .failed

end Primer
