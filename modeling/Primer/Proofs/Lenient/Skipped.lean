import Primer.Proofs.Lenient.Effect

/-!
# Operands that are left out

Without checks, `&&` and `||` leave their right operand out when the left one decides. With checks it is
evaluated all the same, but an operand that calls nothing only adds to memory and to the records. It can
also look at a hole of an array and thereby fill it; what it gives then is undefined, and the operator does not
accept that.
-/

set_option autoImplicit false

namespace Primer

open Run

variable {F : Option CommandFilter} {l : Limits}

/-! ## Computations that are done -/

/-- A note on a failure does not matter where something is done. -/
theorem Run.onFailure_eq_done {σ α : Type} {x : Run σ α} {note : Run σ Unit} {s s' : RunState σ} {a : α}
    (h : Run.onFailure x note s = .done a s') : x s = .done a s' := by
  unfold Run.onFailure at h
  generalize x s = o at h ⊢
  cases o with
  | done a s' => exact h
  | failed e s' =>
    dsimp only at h
    generalize note s' = noted at h
    cases noted <;> cases h
  | exhausted => cases h

variable {s s' s'' : RunState (HostState Unit)}

/-- A state to which only memory and recorded commands were added. -/
structure RunState.Adds (s s' : RunState (HostState Unit)) : Prop where
  memory : s.memory.Extends s'.memory
  others : s' = { s with memory := s'.memory, commands := s'.commands }

/-- A state adds nothing to itself. -/
theorem RunState.Adds.refl (s : RunState (HostState Unit)) : s.Adds s := ⟨.refl _, rfl⟩

/-- Only adding to a state passes on. -/
theorem RunState.Adds.trans (h : s.Adds s') (h' : s'.Adds s'') : s.Adds s'' := by
  refine ⟨h.memory.trans h'.memory, ?_⟩
  rw [h'.others, h.others]

/-- Only adding to a state leaves its scopes. -/
theorem RunState.Adds.scopes_eq (h : s.Adds s') : s'.scopes = s.scopes := by
  rw [h.others]
  rfl

/-- The unchecked run cannot tell that something was added. -/
theorem RunState.Agrees.adds {L : Link} {r : RunState (HostState Unit)} (h : s.Agrees L r) (h' : s.Adds s') :
    s'.Agrees L r := by
  have hmemory : s'.memory.Agrees L (Bound s'.scopes r.scopes) r.memory := by
    rw [h'.scopes_eq]
    exact h.memory.grow h'.memory (.refl _)
  have hscopes : Scope.Agree s'.scopes r.scopes := by
    rw [h'.scopes_eq]
    exact h.scopes
  rw [h'.others] at hmemory hscopes ⊢
  exact ⟨h.host, h.ticks, h.asked, h.calls, hscopes, hmemory⟩

/-- A value that cannot be taken: a cell without a value. -/
def RunState.Hollow (s : RunState (HostState Unit)) (v : Value) : Prop :=
  ∃ c, v = .cell c ∧ s.memory.cells[c]? = some .undefined

/-- A hollow place stays hollow when something is added. -/
theorem RunState.Hollow.adds {v : Value} (h : s.Hollow v) (h' : s.Adds s') : s'.Hollow v := by
  obtain ⟨c, rfl, hc⟩ := h
  exact ⟨c, rfl, h'.memory.cell hc⟩

/-- A hollow place cannot be taken with checks. -/
theorem take_hollow {v w : Value} {e : Expr} (h : s.Hollow v)
    (hw : take (.plain .safe F l) e v s = .done w s') : False := by
  obtain ⟨c, rfl, hc⟩ := h
  have hopened : opened s.memory (.cell c) = .undefined := by simp [opened, Memory.read, hc]
  change takeChecked (.plain .safe F l) e (opened s.memory (.cell c)) s = _ at hw
  rw [hopened] at hw
  cases hw

/-- Taking a value changes nothing. -/
theorem take_done {v w : Value} {e : Expr} (hw : take (.plain .safe F l) e v s = .done w s') : s' = s := by
  change takeChecked (.plain .safe F l) e (opened s.memory v) s = _ at hw
  generalize opened s.memory v = x at hw
  cases x with
  | hostVariable x =>
    obtain ⟨key, name⟩ := x
    cases key <;> (cases hw; rfl)
  | number x =>
    change (if Number.isFinite x = true then pure (.number x) else unusable e "not a valid number" :
      Run _ Value) s = _ at hw
    split at hw
    · cases hw
      rfl
    · cases hw
  | _ => first | (cases hw; rfl) | cases hw

/-- Operands that are taken leave the state as it is. -/
theorem takeOperands_done {info : Info} {symbol : String} {left right : Expr} {a b : Value}
    {p : Value × Value} (h : takeOperands (.plain .safe F l) info symbol left right a b s = .done p s') :
    s' = s ∧ take (.plain .safe F l) left a s = .done p.1 s ∧ take (.plain .safe F l) right b s = .done p.2 s := by
  obtain ⟨x, s₁, hnoted, hrest⟩ := Run.bind_eq_done h
  obtain ⟨y, s₂, hnoted', hpair⟩ := Run.bind_eq_done hrest
  have hx := Run.onFailure_eq_done hnoted
  obtain rfl := take_done hx
  have hy := Run.onFailure_eq_done hnoted'
  obtain rfl := take_done hy
  cases hpair
  exact ⟨rfl, hx, hy⟩

/-- A binary operation that is done leaves the state as it is. -/
theorem binaryValue_done {info : Info} {symbol : String} {x y v : Value}
    (h : binaryValue (.plain .safe F l) info symbol x y s = .done v s') :
    s' = s ∧ s.memory.checked symbol x y = .ok v := by
  rw [binaryValue_safe] at h
  generalize s.memory.checked symbol x y = result at h ⊢
  cases result with
  | ok v =>
    cases h
    exact ⟨rfl, rfl⟩
  | error => cases h

/-- A sign that is done leaves the state as it is. -/
theorem unaryValue_done {info : Info} {symbol : String} {x v : Value}
    (h : unaryValue (.plain .safe F l) info symbol x s = .done v s') : s' = s := by
  rw [unaryValue_safe] at h
  generalize s.memory.checkedUnary symbol x = result at h
  cases result with
  | ok v =>
    cases h
    rfl
  | error => cases h

/-- Narrating tells nothing in this setting. -/
theorem narrate_done {category : Category} {node : NodeId} {message : Memory → String}
    {changes : Unit → List Change} {u : Unit}
    (h : narrate (.plain .safe F l) category node message changes s = .done u s') : s' = s := by
  cases h
  rfl

/-- Recording a command adds to the records only. -/
theorem RunState.Adds.of_record {info : Info} {tag : String} {u : Unit}
    (h : record (.plain .safe F l) info tag s = .done u s') : s.Adds s' ∧ s'.memory = s.memory := by
  rw [record_checked (by simp [Setting.plain])] at h
  split at h
  · cases h
    exact ⟨⟨.refl _, rfl⟩, rfl⟩
  · cases h

/-- An operator that is done has taken both operands, and only adds a command. -/
theorem binaryAction_done {info : Info} {left right : Expr} {symbol : String} {a b v : Value}
    (h : binaryAction (.plain .safe F l) info left symbol right a b s = .done v s') :
    s.Adds s' ∧ ∃ x y, take (.plain .safe F l) left a s = .done x s ∧
      take (.plain .safe F l) right b s = .done y s ∧ s.memory.checked symbol x y = .ok v := by
  rw [binaryAction_eq] at h
  obtain ⟨⟨x, y⟩, s₁, hxy, happlied⟩ := Run.bind_eq_done h
  obtain ⟨rfl, hx, hy⟩ := takeOperands_done hxy
  obtain ⟨v, s₂, hvalue, hnarrated⟩ := Run.bind_eq_done happlied
  rw [applyBinary_eq] at hvalue
  obtain ⟨u, s₃, hrecord, hresult⟩ := Run.bind_eq_done hvalue
  obtain ⟨hadds, hmemory⟩ := RunState.Adds.of_record hrecord
  obtain ⟨rfl, hv⟩ := binaryValue_done hresult
  obtain ⟨u, s₄, hnarrate, hlast⟩ := Run.bind_eq_done hnarrated
  obtain rfl := narrate_done hnarrate
  cases hlast
  rw [hmemory] at hv
  exact ⟨hadds, x, y, hx, hy, hv⟩

/-- A sign that is done only adds, and its operand was not hollow. -/
theorem unaryAction_done {info : Info} {symbol : String} {operand : Expr} {a v : Value}
    (h : unaryAction (.plain .safe F l) info symbol operand a s = .done v s') : s.Adds s' ∧ ¬ s.Hollow a := by
  rw [unaryAction_eq] at h
  obtain ⟨u, s₁, hrecord, htaken⟩ := Run.bind_eq_done h
  obtain ⟨hadds, -⟩ := RunState.Adds.of_record hrecord
  obtain ⟨x, s₂, hx, happlied⟩ := Run.bind_eq_done htaken
  obtain rfl := take_done hx
  obtain ⟨v, s₃, hv, hnarrated⟩ := Run.bind_eq_done happlied
  obtain rfl := unaryValue_done hv
  obtain ⟨u, s₄, hnarrate, hlast⟩ := Run.bind_eq_done hnarrated
  obtain rfl := narrate_done hnarrate
  cases hlast
  exact ⟨hadds, fun hollow => take_hollow (hollow.adds hadds) hx⟩

/-- A member that is found leaves the state as it is, and its object was not hollow. -/
theorem memberAction_done {info : Info} {object : Expr} {property : String} {o v : Value}
    (h : memberAction (.plain .safe F l) info object property o s = .done v s') :
    s' = s ∧ ¬ s.Hollow o := by
  obtain ⟨x, s₁, hx, hfound⟩ := Run.bind_eq_done h
  obtain rfl := take_done hx
  refine ⟨?_, fun hollow => take_hollow hollow hx⟩
  obtain ⟨m, s₂, hm, hgiven⟩ := Run.bind_eq_done hfound
  have hsame : s₂ = s₁ := by
    cases hm
    rfl
  obtain rfl := hsame
  rcases m with _ | _ | m
  · cases hgiven
  · cases hgiven
  · cases hgiven
    rfl

/-- A new array extends a memory. -/
theorem Memory.extends_newArray (m : Memory) (vs : List Value) : m.Extends (m.newArray vs).2 := by
  refine ⟨rfl, fun {c v} hc => ?_, fun {a p} ha => getElem?_push_of_some ha⟩
  have hlt := (Array.getElem?_eq_some_iff.mp hc).1
  simp only [Memory.newArray, Memory.allocAll]
  rw [Array.getElem?_append_left hlt, hc]

/-- Asking for a slot adds nothing, or one cell that is undefined. -/
theorem Memory.slot_adds (m : Memory) (a : ArrayRef) (i : Nat) :
    m.Extends (m.slot a i).2 ∨ ∃ c, (m.slot a i).1 = .cell c ∧ (m.slot a i).2.cells[c]? = some .undefined := by
  unfold Memory.slot
  split
  · exact Or.inl (.refl m)
  · exact Or.inl (.refl m)
  · exact Or.inr ⟨m.cells.size, rfl, m.getElem?_alloc .undefined⟩

/-- An element only adds to memory, unless it is a hole. -/
theorem elementAction_done {info : Info} {array position : Expr} {a i v : Value}
    (h : elementAction (.plain .safe F l) info array position a i s = .done v s') :
    (s.Adds s' ∨ s'.Hollow v) ∧ ¬ s.Hollow a ∧ ¬ s.Hollow i := by
  rw [elementAction_eq] at h
  obtain ⟨x, s₁, hx, hindexed⟩ := Run.bind_eq_done h
  obtain rfl := take_done hx
  obtain ⟨p, s₂, hp, hplaced⟩ := Run.bind_eq_done hindexed
  obtain rfl := take_done hp
  refine ⟨?_, fun hollow => take_hollow hollow hx, fun hollow => take_hollow hollow hp⟩
  cases p with
  | number y =>
    by_cases hwhole : Number.isWhole y = true
    · by_cases hnegative : y < 0.0
      · simp only [hwhole, hnegative, Bool.not_true, if_true] at hplaced
        cases hplaced
      · simp only [hwhole, hnegative, Bool.not_true] at hplaced
        cases x with
        | array ref =>
          cases hplaced
          exact (Memory.slot_adds _ ref (indexOf y)).imp (fun hadds => ⟨hadds, rfl⟩) id
        | _ => cases hplaced
    · simp only [hwhole, Bool.not_false, if_true] at hplaced
      cases hplaced
  | _ => cases hplaced

/-- A new array only adds. -/
theorem arrayAction_done {vs : List Value} {v : Value} (h : arrayAction vs s = .done v s') : s.Adds s' := by
  cases h
  exact ⟨s.memory.extends_newArray vs, rfl⟩

/-! ## Expressions that call nothing -/

/-- What expressions that call nothing do within a bound, when they are done. -/
structure OnlyAdds (F : Option CommandFilter) (l : Limits) (n : Nat) : Prop where
  eval {depth e v} {s s' : RunState (HostState Unit)} : Expr.callsNothing e = true →
    eval (.plain .safe F l) n depth e s = .done v s' → s.Adds s' ∨ s'.Hollow v
  evalTaken {depth es vs} {s s' : RunState (HostState Unit)} : Expr.allCallNothing es = true →
    evalTaken (.plain .safe F l) n depth es s = .done vs s' → s.Adds s'

namespace OnlyAdds

variable {n depth : Nat}

/-- Each operand is taken once all are evaluated, so none of them is a hole that was filled. -/
theorem eval_succ (ih : OnlyAdds F l n) {e : Expr} {v : Value} (he : e.callsNothing = true)
    (h : Primer.eval (.plain .safe F l) (n + 1) depth e s = .done v s') : s.Adds s' ∨ s'.Hollow v := by
  have hsame (s : RunState (HostState Unit)) (v : Value) : s.Adds s ∨ s.Hollow v := Or.inl (.refl s)
  by_cases hdeep : maxEvalDepth ≤ depth
  · simp only [Primer.eval, if_pos hdeep] at h
    cases h
  · cases e with
    | number | string | boolean | null =>
      simp only [Primer.eval, if_neg hdeep] at h
      cases h
      exact hsame _ _
    | name info x =>
      simp only [Primer.eval, if_neg hdeep, nameAction] at h
      generalize s.find? x = found at h
      cases found <;> cases h
      exact hsame _ _
    | call => cases he
    | member info object property =>
      simp only [Expr.callsNothing] at he
      simp only [Primer.eval, if_neg hdeep] at h
      obtain ⟨o, s₁, ho, haction⟩ := Run.bind_eq_done h
      obtain ⟨rfl, hsolid⟩ := memberAction_done haction
      exact Or.inl ((ih.eval he ho).resolve_right hsolid)
    | element info base position =>
      simp only [Expr.callsNothing, Bool.and_eq_true] at he
      simp only [Primer.eval, if_neg hdeep] at h
      obtain ⟨a, s₁, ha, hrest⟩ := Run.bind_eq_done h
      obtain ⟨i, s₂, hi, haction⟩ := Run.bind_eq_done hrest
      obtain ⟨hadds, hbase, hposition⟩ := elementAction_done haction
      have hsecond := (ih.eval he.2 hi).resolve_right hposition
      have hfirst := (ih.eval he.1 ha).resolve_right fun hollow => hbase (hollow.adds hsecond)
      exact hadds.imp (fun hadds => (hfirst.trans hsecond).trans hadds) id
    | array info items =>
      simp only [Expr.callsNothing] at he
      simp only [Primer.eval, if_neg hdeep] at h
      split at h
      · cases h
      · obtain ⟨vs, s₁, hvs, haction⟩ := Run.bind_eq_done h
        exact Or.inl ((ih.evalTaken he hvs).trans (arrayAction_done haction))
    | binary info left symbol right =>
      simp only [Expr.callsNothing, Bool.and_eq_true] at he
      simp only [Primer.eval, if_neg hdeep] at h
      obtain ⟨a, s₁, ha, hrest⟩ := Run.bind_eq_done h
      obtain ⟨b, s₂, hb, haction⟩ := Run.bind_eq_done hrest
      obtain ⟨hadds, x, y, hx, hy, -⟩ := binaryAction_done haction
      have hsecond := (ih.eval he.2 hb).resolve_right fun hollow => take_hollow hollow hy
      have hfirst := (ih.eval he.1 ha).resolve_right fun hollow => take_hollow (hollow.adds hsecond) hx
      exact Or.inl ((hfirst.trans hsecond).trans hadds)
    | unary info symbol operand =>
      simp only [Expr.callsNothing] at he
      simp only [Primer.eval, if_neg hdeep] at h
      obtain ⟨a, s₁, ha, haction⟩ := Run.bind_eq_done h
      obtain ⟨hadds, hsolid⟩ := unaryAction_done haction
      exact Or.inl (((ih.eval he ha).resolve_right hsolid).trans hadds)

/-- Items that call nothing only add. -/
theorem evalTaken_succ (ih : OnlyAdds F l n) {es : List Expr} {vs : List Value}
    (hes : Expr.allCallNothing es = true)
    (h : Primer.evalTaken (.plain .safe F l) (n + 1) depth es s = .done vs s') : s.Adds s' := by
  cases es with
  | nil =>
    cases h
    exact .refl _
  | cons e es =>
    simp only [Expr.allCallNothing, Bool.and_eq_true] at hes
    simp only [Primer.evalTaken] at h
    obtain ⟨v, s₁, hv, hrest⟩ := Run.bind_eq_done h
    obtain ⟨w, s₂, hw, hlater⟩ := Run.bind_eq_done hrest
    obtain rfl := take_done hw
    obtain ⟨ws, s₃, hws, hlast⟩ := Run.bind_eq_done hlater
    cases hlast
    have hfirst := (ih.eval hes.1 hv).resolve_right fun hollow => take_hollow hollow hw
    exact hfirst.trans (ih.evalTaken hes.2 hws)

/-- An expression that calls nothing only adds to memory and records, or it gives a hole that it filled. -/
theorem all (F : Option CommandFilter) (l : Limits) (n : Nat) : OnlyAdds F l n := by
  induction n with
  | zero =>
    constructor
    · intro depth e v s s' _ h
      cases h
    · intro depth es vs s s' _ h
      cases h
  | succ n ih => exact ⟨ih.eval_succ, ih.evalTaken_succ⟩

end OnlyAdds

/-! ## The operators that may leave an operand out -/

/-- Taking a place without checks leaves the state as it is. -/
theorem takeUnchecked_done {v w : Value} {e : Expr}
    (hw : takeUnchecked (.plain .raw F l) e v s = .done w s') : s' = s := by
  cases v with
  | hostVariable x =>
    obtain ⟨key, name⟩ := x
    cases key <;> (cases hw; rfl)
  | _ =>
    cases hw
    rfl

/-- A boolean that the checked side takes is what the other side takes. -/
theorem takeUnchecked_boolean {L : Link} {r : RunState (HostState Unit)} (h : s.Agrees L r) {e : Expr}
    {v w : Value} (hvw : Place L s.scopes r.scopes v w) {p : Bool}
    (hv : take (.plain .safe F l) e v s = .done (.boolean p) s') :
    takeUnchecked (.plain .raw F l) e w r = .done (.boolean p) r := by
  have htaken := take_repeats (F := F) (l := l) h e hvw
  rw [hv] at htaken
  change Repeats 0 L s r Stored _ (takeUnchecked (.plain .raw F l) e w r) at htaken
  generalize hw : takeUnchecked (.plain .raw F l) e w r = o at htaken
  cases htaken with
  | done _ _ _ _ hx =>
    rw [hx.boolean, takeUnchecked_done hw]

/-- A logical operation with checks is one of truth values. -/
theorem checked_logical {m : Memory} {symbol : String} (hsymbol : isLogical symbol = true) {x y v : Value}
    (h : m.checked symbol x y = .ok v) : ∃ p q, x = .boolean p ∧ y = .boolean q ∧
      v = .boolean (if p = (symbol == "||") then p else q) := by
  have hcases : symbol = "&&" ∨ symbol = "||" := by simpa [isLogical] using hsymbol
  cases x with
  | boolean p =>
    cases y with
    | boolean q =>
      refine ⟨p, q, rfl, rfl, ?_⟩
      rcases hcases with rfl | rfl
      · cases h
        cases p <;> rfl
      · cases h
        cases p <;> rfl
    | _ => rcases hcases with rfl | rfl <;> cases h
  | _ => rcases hcases with rfl | rfl <;> cases h

/-- How the lenient operators go on once their left operand is taken. -/
theorem logical_branch {N depth : Nat} {r : RunState (HostState Unit)} {left right : Expr} {symbol : String}
    {a : Value} {p : Bool} (htaken : takeUnchecked (.plain .raw F l) left a r = .done (.boolean p) r) :
    (do
      let x ← takeUnchecked (.plain .raw F l) left a
      if (← asks fun s => s.memory.isTruthy x) = (symbol == "||") then pure x
      else
        let b ← eval (.plain .raw F l) N depth right
        takeUnchecked (.plain .raw F l) right b : Run _ Value) r =
    (if p = (symbol == "||") then pure (.boolean p)
    else do
      let b ← eval (.plain .raw F l) N depth right
      takeUnchecked (.plain .raw F l) right b : Run _ Value) r := by
  change Run.andThen (takeUnchecked (.plain .raw F l) left a) _ r = _
  unfold Run.andThen
  rw [htaken]
  rfl

/-- The lenient `&&` and `||` give what the strict ones give, whether they leave their right operand out or
not. -/
theorem evalLogical_repeats {L : Link} {r : RunState (HostState Unit)} {n N depth : Nat}
    {left right : Expr} (info : Info) {symbol : String} (hsymbol : isLogical symbol = true)
    (hcalls : right.callsNothing = true)
    (hleft : Repeats 0 L s r (Places s r) (eval (.plain .safe F l) n depth left s)
      (eval (.plain .raw F l) N depth left r))
    (hright : ∀ {L'} {s' r' : RunState (HostState Unit)}, s'.Agrees L' r' →
      Repeats 0 L' s' r' (Places s' r') (eval (.plain .safe F l) n depth right s')
        (eval (.plain .raw F l) N depth right r')) :
    Repeats 0 L s r Stored
      ((do
        let a ← eval (.plain .safe F l) n depth left
        let b ← eval (.plain .safe F l) n depth right
        binaryAction (.plain .safe F l) info left symbol right a b : Run _ Value) s)
      (evalLogical (.plain .raw F l) (N + 1) depth left symbol right r) := by
  simp only [evalLogical]
  refine hleft.bind fun {L₁ s₁ r₁ a a'} _ h₁ hs hr ha => ?_
  have hplace : Place L₁ s₁.scopes r₁.scopes a a' := by
    rw [hs.scopes_eq, hr.scopes_eq]
    exact ha
  have hrepeated := hright h₁
  generalize ho : ((do
    let b ← eval (.plain .safe F l) n depth right
    binaryAction (.plain .safe F l) info left symbol right a b : Run _ Value) s₁) = o
  cases o with
  | failed => exact .failed
  | exhausted => exact .exhausted
  | done v s₃ =>
    obtain ⟨b, s₂, hb, haction⟩ := Run.bind_eq_done ho
    obtain ⟨hadds', x, y, hx, hy, hv⟩ := binaryAction_done haction
    have hadds := ((OnlyAdds.all F l n).eval hcalls hb).resolve_right fun hollow => take_hollow hollow hy
    obtain ⟨p, q, rfl, rfl, rfl⟩ := checked_logical hsymbol hv
    -- The checked run takes the left operand after the right one is evaluated, the other one before.
    have hleftTaken := takeUnchecked_boolean (F := F) (l := l) (h₁.adds hadds) (hadds.scopes_eq ▸ hplace) hx
    rw [logical_branch hleftTaken]
    by_cases hdecided : p = (symbol == "||")
    · rw [if_pos hdecided, if_pos hdecided]
      exact .done (.refl L₁) (h₁.adds (hadds.trans hadds')) (hadds.trans hadds').scopes_eq rfl
        ⟨.same trivial, rfl⟩
    · rw [if_neg hdecided, if_neg hdecided]
      rw [hb] at hrepeated
      generalize hb' : eval (.plain .raw F l) N depth right r₁ = o' at hrepeated
      cases hrepeated with
      | @done _ b' _ r₂ L₂ hL₂ h₂ hs₂ hr₂ hbb =>
        have hplace' : Place L₂ s₂.scopes r₂.scopes b b' := by
          rw [hs₂.scopes_eq, hr₂.scopes_eq]
          exact hbb
        have hrightTaken := takeUnchecked_boolean (F := F) (l := l) h₂ hplace' hy
        change Repeats 0 L₁ s₁ r₁ Stored _
          (Run.andThen (eval (.plain .raw F l) N depth right) _ r₁)
        unfold Run.andThen
        rw [hb']
        dsimp only
        rw [hrightTaken]
        exact .done hL₂ (h₂.adds hadds') (hadds.trans hadds').scopes_eq hr₂ ⟨.same trivial, rfl⟩

end Primer
