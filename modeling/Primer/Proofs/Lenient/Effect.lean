import Primer.Proofs.Lenient.Action
import Primer.Run.Evaluator

/-!
# Members, declarations, calls and assignments on two sides

The actions that give places or change memory and scopes. A variable that is declared again is where the two
sides part: the checked one gets a new cell without a value, the other one keeps what it has.
-/

set_option autoImplicit false

namespace Primer

open Run

variable {F : Option CommandFilter} {l : Limits} {L : Link} {s r : RunState (HostState Unit)}

/-- The places that an expression may give, in terms of the states before it. -/
abbrev Places (s r : RunState (HostState Unit)) (L : Link) : Value → Value → Prop :=
  Place L s.scopes r.scopes

/-- Places correspond as before as long as all scopes are kept. -/
theorem Places.eq {s' r' : RunState (HostState Unit)} (hs : s.Keeps 0 s') (hr : r.Keeps 0 r') :
    Places s' r' = Places s r := by
  unfold Places
  rw [hs.scopes_eq, hr.scopes_eq]

/-- The evaluation of an expression, and what is done with the place that it gives. -/
theorem Repeats.evaluated {β β' : Type} {k : Nat} {x y : Run (HostState Unit) Value}
    {f : Value → Run (HostState Unit) β} {g : Value → Run (HostState Unit) β'} {Q : Link → β → β' → Prop}
    (hx : Repeats 0 L s r (Places s r) (x s) (y r))
    (hf : ∀ {L' s' r' a b}, L.Within L' → s'.Agrees L' r' → s.Keeps 0 s' → r.Keeps 0 r' →
      Places s' r' L' a b → Repeats k L' s' r' Q (f a s') (g b r')) :
    Repeats k L s r Q ((x >>= f) s) ((y >>= g) r) :=
  hx.andThen fun hL h' hs hr hab => hf hL h' hs hr (Places.eq hs hr ▸ hab)

/-- Values are places, too. -/
theorem Repeats.places {s₀ r₀ : RunState (HostState Unit)} {x y : Outcome (HostState Unit) Value}
    (h : Repeats 0 L s r Stored x y) : Repeats 0 L s r (Places s₀ r₀) x y :=
  h.imp fun _ hvw => .value hvw.agrees

/-- What is read off both states corresponds if it does so there. -/
theorem asks_repeats {α α' : Type} (h : s.Agrees L r) {f : RunState (HostState Unit) → α}
    {g : RunState (HostState Unit) → α'} {Q : Link → α → α' → Prop} (hfg : Q L (f s) (g r)) :
    Repeats 0 L s r Q (asks f s) (asks g r) :=
  .value h hfg

/-! ## Names, members and elements -/

/-- A name gives corresponding places. -/
theorem nameAction_repeats (h : s.Agrees L r) (info : Info) (name : String) :
    Repeats 0 L s r (Places s r) (nameAction info name s) (nameAction info name r) := by
  unfold nameAction
  cases hv : s.find? name with
  | none => exact .failed
  | some v =>
    obtain ⟨w, hw, hvw⟩ := h.find?_place hv
    rw [hw]
    exact .value h hvw

/-- The members of the console refer to nothing. -/
theorem Console.member?_standalone {name : String} {v : Value} (h : Console.member? name = some v) :
    v.Standalone := by
  unfold Console.member? at h
  split at h <;> first | (cases h; trivial) | cases h

/-- The members of `Math` refer to nothing. -/
theorem mathMember?_standalone {name : String} {v : Value} (h : mathMember? name = some v) :
    v.Standalone := by
  unfold mathMember? at h
  split at h
  · cases h
    trivial
  · split at h <;> first | (cases h; trivial) | cases h

/-- A member that the checked run finds is found without checks too. -/
theorem memberOf?_agrees {property : String} {v w m : Value} (hvw : Stored L v w)
    (hm : memberOf? (.plain .safe F l) s property v = some (some m)) :
    ∃ m', memberOf? (.plain .raw F l) r property w = some (some m') ∧ m.Agrees L m' := by
  rcases hvw.cases with ⟨rfl, hw⟩ | ⟨a, b, rfl, rfl, hab⟩
  · cases w with
    | object key =>
      have hmember := Option.some.inj hm
      refine ⟨m, hm, .same ?_⟩
      cases key with
      | console => exact Console.member?_standalone hmember
      | math => exact mathMember?_standalone hmember
      | extra n => cases hmember
    | string t =>
      refine ⟨m, hm, .same ?_⟩
      have hmember := Option.some.inj hm
      split at hmember
      · cases hmember
        trivial
      · cases hmember
    | array a => exact absurd hw id
    | _ => cases hm
  · have hmember := Option.some.inj hm
    split at hmember
    · rename_i hlength
      cases hmember
      exact ⟨.arrayLength b, by simp only [memberOf?, if_pos hlength], .arrayLength hab⟩
    · cases hmember

/-- A member gives corresponding places. -/
theorem memberAction_repeats (h : s.Agrees L r) (info : Info) (object : Expr) (property : String)
    {o o' : Value} (ho : Places s r L o o') :
    Repeats 0 L s r (Places s r) (memberAction (.plain .safe F l) info object property o s)
      (memberAction (.plain .raw F l) info object property o' r) := by
  refine (take_repeats h object ho).bind fun {_ _ _ v w} _ h' _ _ hvw => ?_
  have hmember := asks_repeats (f := fun s => memberOf? (.plain .safe F l) s property v)
    (g := fun r => memberOf? (.plain .raw F l) r property w)
    (Q := fun L' x y => ∀ m, x = some (some m) → ∃ m', y = some (some m') ∧ Value.Agrees L' m m')
    h' fun m hm => memberOf?_agrees hvw hm
  refine hmember.bind fun {_ _ _ x y} _ h' _ _ hxy => ?_
  cases x with
  | none => exact .failed
  | some x =>
    cases x with
    | none => exact .failed
    | some m =>
      obtain ⟨m', rfl, hm⟩ := hxy m rfl
      exact .value h' (.value hm)

/-- The place of an element of arrays that agree. -/
theorem slot_repeats (h : s.Agrees L r) {a b : ArrayRef} (hab : L.arrays a b) (i : Nat) :
    Repeats 0 L s r Value.Agrees (onMemory (fun m => m.slot a i) s) (onMemory (fun m => m.slot b i) r) := by
  obtain ⟨L', hL, hmemory, hplace⟩ := h.memory.slot hab i
  exact .done hL (h.withMemory hmemory) rfl rfl hplace

/-- An element gives corresponding places. -/
theorem elementAction_repeats (h : s.Agrees L r) (info : Info) (array position : Expr) {a a' i i' : Value}
    (ha : Places s r L a a') (hi : Places s r L i i') :
    Repeats 0 L s r (Places s r) (elementAction (.plain .safe F l) info array position a i s)
      (elementAction (.plain .raw F l) info array position a' i' r) := by
  rw [elementAction_eq, elementAction_eq]
  refine (take_repeats h array ha).bind fun {_ _ _ v w} hL h' hs hr hvw => ?_
  refine (take_repeats h' position (hi.carry hL hs hr)).bind fun {_ _ _ p q} hL' h' _ _ hpq => ?_
  cases p with
  | number x =>
    rw [hpq.number]
    dsimp only
    by_cases hwhole : Number.isWhole x = true
    · by_cases hnegative : x < 0.0
      · simp only [hwhole, hnegative, Bool.not_true, if_true]
        exact .failed
      · simp only [hwhole, hnegative, Bool.not_true]
        rcases (hvw.mono hL').cases with ⟨rfl, hv⟩ | ⟨b, c, rfl, rfl, hbc⟩
        · cases w with
          | array => exact hv.elim
          | _ => exact .failed
        · exact (slot_repeats h' hbc (indexOf x)).imp fun _ hplace => .value hplace
    · simp only [hwhole, Bool.not_false, if_true]
      exact .failed
  | _ => exact .failed

/-- New arrays of corresponding values correspond. -/
theorem arrayAction_repeats (h : s.Agrees L r) {vs ws : List Value} (hvw : List.Forall₂ (Stored L) vs ws) :
    Repeats 0 L s r Stored (arrayAction vs s) (arrayAction ws r) := by
  obtain ⟨L', hL, hmemory, hab⟩ := h.memory.newArray hvw
  exact .done hL (h.withMemory hmemory) rfl rfl ⟨.array hab, rfl⟩

/-! ## Declarations -/

/-- Declaring a name with corresponding values keeps the states in agreement. -/
theorem declareName_repeats (h : s.Agrees L r) (name : String) {v w : Value} (hvw : Stored L v w)
    (hw : w.isPlace = false) :
    Repeats 1 L s r (fun _ _ _ => True) (declareName name v s) (declareName name w r) := by
  rw [declareName_eq hvw.settled, declareName_eq hw]
  exact .done (.refl L) (h.bindNew name hvw) (s.keeps_bindNew name v) (r.keeps_bindNew name w) trivial

/-- With checks a declaration records its tag and declares the name. -/
theorem declaredAction_safe (d : Declared) (s : RunState (HostState Unit)) :
    declaredAction (.plain .safe F l) d s = (do
      record (.plain .safe F l) d.info "var"
      declareName d.name .undefined : Run _ Unit) s := by
  unfold declaredAction
  cases d.first <;> rfl

/-- Without checks a declaration keeps a name that is already there. -/
theorem declaredAction_raw (d : Declared) (r : RunState (HostState Unit)) :
    declaredAction (.plain .raw F l) d r = (do
      record (.plain .raw F l) d.info "var"
      fun r => if (r.scope.find? d.name).isSome then .done () r
        else declareName d.name .undefined r : Run _ Unit) r := by
  have hrest : (do
      record (.plain .raw F l) d.info "var"
      fun r => if (r.scope.find? d.name).isSome then .done () r
        else declareName d.name .undefined r : Run _ Unit) r =
      if (r.scope.find? d.name).isSome then .done () r else declareName d.name .undefined r := rfl
  have hbranch : declaredAction (.plain .raw F l) d r =
      (if (r.scope.find? d.name).isSome then pure ()
      else do
        declareName d.name .undefined
        if d.first.isNone then
          narrate (.plain .raw F l) .inline d.info.id
            (fun _ => "<var>" ++ d.name ++ "</var> = <var>undefined</var>")
            (fun _ => [⟨d.info.id, d.name⟩])
        else pure () : Run _ Unit) r := rfl
  rw [hrest, hbranch]
  split
  · rfl
  · cases d.first <;> rfl

/-- A variable that exists gets a new cell on the checked side only. -/
theorem declaredAction_repeats (h : s.Agrees L r) (d : Declared) :
    Repeats 1 L s r (fun _ _ _ => True) (declaredAction (.plain .safe F l) d s)
      (declaredAction (.plain .raw F l) d r) := by
  rw [declaredAction_safe, declaredAction_raw]
  refine (record_repeats h d.info "var").weaken.bind fun {L' s' r' _ _} _ h' _ _ _ => ?_
  by_cases hx : (r'.scope.find? d.name).isSome = true
  · rw [if_pos hx, declareName_eq rfl]
    exact .done (.refl L') (h'.bindNew_left hx) (s'.keeps_bindNew ..) (.refl 1 r') trivial
  · rw [if_neg hx]
    exact declareName_repeats h' d.name ⟨.same trivial, rfl⟩ rfl

/-- A function whose name is new on the checked side is new on the other side too. -/
theorem functionAction_repeats (h : s.Agrees L r) (info : Info) (name : String) (params : List String)
    {body : List Stmt} (hbody : Stmt.allTame body = true) :
    Repeats 1 L s r (fun _ _ _ => True) (functionAction (.plain .safe F l) info name params body s)
      (functionAction (.plain .raw F l) info name params body r) := by
  refine ((record_repeats h info "function").weaken).bind fun {L' s' r' _ _} hL h' _ _ _ => ?_
  have hexisting := asks_repeats (Q := fun _ v w => v = none → w = none) h'
    (f := fun s => (s.scope.find? name).map (opened s.memory))
    (g := fun s => (s.scope.find? name).map (opened s.memory)) fun hnone => by
      have := h'.isSome_find? name
      simp only [Option.map_eq_none_iff] at hnone ⊢
      simpa [hnone] using this
  refine hexisting.weaken.bind fun {_ s' r' v w} _ h' _ _ hvw => ?_
  cases v with
  | some existing => exact .failed
  | none =>
    rw [hvw rfl]
    dsimp only
    have hcounted : Repeats 1 _ s' r' (fun _ n n' => n' = n)
        (onMemory (fun m => (m.functions, { m with functions := m.functions + 1 })) s')
        (onMemory (fun m => (m.functions, { m with functions := m.functions + 1 })) r') :=
      .done (.refl _) (h'.withMemory h'.memory.withFunction) rfl rfl h'.memory.functions
    refine hcounted.bind fun {L'' _ _ ref _} _ h' _ _ href => ?_
    rw [href]
    have hfunction : Stored L'' (.function ⟨ref, info, name, params, body⟩)
      (.function ⟨ref, info, name, params, body⟩) := ⟨.same hbody, rfl⟩
    refine (declareName_repeats h' name hfunction rfl).bind fun _ h' _ _ _ => ?_
    exact (narrate_repeats h' ..).weaken

/-! ## Calls -/

/-- Entering a call keeps the states in agreement. -/
theorem enterCall_repeats (h : s.Agrees L r) (info : Info) :
    Repeats 0 L s r (fun _ _ _ => True) (enterCall (.plain .safe F l) info s)
      (enterCall (.plain .raw F l) info r) := by
  unfold enterCall
  rw [h.calls]
  by_cases hdeep : l.callDepth ≤ s.calls.length
  · simp only [Setting.plain, hdeep, if_true]
    exact .failed
  · simp only [Setting.plain, hdeep]
    exact .done (.refl L) ⟨h.host, h.ticks, h.asked, rfl, h.scopes, h.memory⟩ rfl rfl trivial

/-- Leaving a call keeps the states in agreement. -/
theorem leaveCall_repeats (h : s.Agrees L r) :
    Repeats 0 L s r (fun _ _ _ => True) (leaveCall s) (leaveCall r) := by
  have hcalls : r.calls.tail = s.calls.tail := by rw [h.calls]
  exact .done (.refl L) ⟨h.host, h.ticks, h.asked, hcalls, h.scopes, h.memory⟩ rfl rfl trivial

/-- A parameter is bound to corresponding values. -/
theorem bindParam_repeats (h : s.Agrees L r) (info : Info) (p : String) {v w : Value} (hvw : Stored L v w) :
    Repeats 0 L s r Stored (bindParam (.plain .safe F l) info p v s)
      (bindParam (.plain .raw F l) info p w r) := by
  cases v with
  | absent | undefined | null => exact .failed
  | _ => exact .value h hvw

/-- Two lists of bound parameters that agree. -/
abbrev BoundAlike (L : Link) : List (String × Value) → List (String × Value) → Prop :=
  List.Forall₂ fun e e' => e'.1 = e.1 ∧ Stored L e.2 e'.2

/-- Parameters are bound to corresponding values. -/
theorem bindParams_repeats (h : s.Agrees L r) (info : Info) (ps : List String) {vs ws : List Value}
    (hvw : List.Forall₂ (Stored L) vs ws) :
    Repeats 0 L s r BoundAlike (bindParams (.plain .safe F l) info ps vs s)
      (bindParams (.plain .raw F l) info ps ws r) := by
  induction ps generalizing L s r vs ws with
  | nil => exact .value h .nil
  | cons p ps ih =>
    have hhead : Stored L (vs.headD .undefined) (ws.headD .undefined) := by
      cases hvw with
      | nil => exact ⟨.same trivial, rfl⟩
      | cons hv _ => exact hv
    have htail : List.Forall₂ (Stored L) vs.tail ws.tail := by
      cases hvw with
      | nil => exact .nil
      | cons _ hvs => exact hvs
    refine (bindParam_repeats h info p hhead).bind fun hL h' _ _ hx => ?_
    refine (ih h' (htail.imp fun _ _ hv => hv.mono hL)).bind fun hL' h' _ _ hxs => ?_
    exact .value h' (.cons ⟨rfl, hx.mono hL'⟩ hxs)

/-- The body of a function in a frame of its own: it may declare variables there, and they are gone
afterwards. -/
theorem framed_repeats {s₀ r₀ : RunState (HostState Unit)} (hs : s.scopes.tail = s₀.scopes)
    (hr : r.scopes.tail = r₀.scopes) {x y : Run (HostState Unit) (Option Value)}
    (hbody : Repeats 1 L s r (fun L' => Option.Rel (Stored L')) (x s) (y r)) :
    Repeats 0 L s₀ r₀ Stored (Plan.framed x s) (Plan.framed y r) := by
  have hleft {t t' t₀ : RunState (HostState Unit)} (ht : t.Keeps 1 t') (ht₀ : t.scopes.tail = t₀.scopes) :
      t'.scopes.tail ≠ [] ∧ t₀.Keeps 0 (leaveFunction t') := by
    have htail : t'.scopes.tail = t₀.scopes := by
      rw [← ht₀, ← List.drop_one, ← List.drop_one]
      exact ht
    have hne : t'.scopes.tail ≠ [] := htail ▸ t₀.scopes_ne_nil
    exact ⟨hne, (RunState.scopes_leaveFunction hne).trans htail⟩
  unfold Plan.framed
  generalize x s = o at hbody
  generalize y r = o' at hbody
  cases hbody with
  | failed => exact .failed
  | exhausted => exact .exhausted
  | @done a b s' r' L' hL hagree hs' hr' hab =>
    obtain ⟨hne, hkept⟩ := hleft hs' hs
    refine .done hL (hagree.leaveFunction hne) hkept (hleft hr' hr).2 ?_
    cases hab with
    | none => exact ⟨.same trivial, rfl⟩
    | some hab => exact hab

/-- A call of a function whose body is repeated. -/
theorem enterFunction_repeats (h : s.Agrees L r) (info : Info) (f : UserFunction) {vs ws : List Value}
    (hvw : List.Forall₂ (Stored L) vs ws) {x y : Run (HostState Unit) (Option Value)}
    (hbody : ∀ {L' s' r'}, L.Within L' → s'.Agrees L' r' →
      Repeats 1 L' s' r' (fun L' => Option.Rel (Stored L')) (x s') (y r')) :
    Repeats 0 L s r Stored
      ((do
        enterFunction (.plain .safe F l) info f vs
        Plan.framed x : Run _ Value) s)
      ((do
        enterFunction (.plain .raw F l) info f ws
        Plan.framed y : Run _ Value) r) := by
  by_cases hfew : vs.length < f.params.length
  · simp only [enterFunction, hfew, decide_true, Bool.and_true]
    exact .failed
  · have hsafe : enterFunction (.plain .safe F l) info f vs = (do
        let bound ← bindParams (.plain .safe F l) info f.params vs
        let label ← asks fun s => callLabel s.memory f.name vs
        narrate (.plain .safe F l) .block f.info.id (fun _ => "entering <var>" ++ label ++ "</var>") (fun _ => [])
        update (pushFrame f bound label)) := by
      rw [enterFunction_eq, if_neg (by simp [hfew])]
    have hraw : enterFunction (.plain .raw F l) info f ws = (do
        let bound ← bindParams (.plain .raw F l) info f.params ws
        let label ← asks fun s => callLabel s.memory f.name ws
        narrate (.plain .raw F l) .block f.info.id (fun _ => "entering <var>" ++ label ++ "</var>") (fun _ => [])
        update (pushFrame f bound label)) := by
      rw [enterFunction_eq]
      rfl
    rw [hsafe, hraw, Run.bind_assoc, Run.bind_assoc]
    refine (bindParams_repeats h info f.params hvw).bind fun {L' s' r' b b'} hL h' _ _ hb => ?_
    have hpushed := h'.pushFrame f hb (callLabel s'.memory f.name vs) (callLabel r'.memory f.name ws)
    exact framed_repeats rfl rfl (hbody hL hpushed)

/-! ## Hosts and assignments -/

/-- A host that is finished with a value gives it. -/
theorem runHost_finish {cfg : Setting (HostState Unit)} {n : Nat} (hn : 0 < n) (depth : Nat) (info : Info)
    (use : HostUse) (v : Value) (host : HostState Unit) (memory : Memory) (s : RunState (HostState Unit)) :
    runHost cfg n depth info use (.finish (.ok v) host memory) s =
      .done v { s with host := host, memory := memory } := by
  cases n with
  | zero => exact absurd hn (Nat.lt_irrefl 0)
  | succ n => rfl

/-- A host that fails with a message makes the run fail. -/
theorem runHost_failed {cfg : Setting (HostState Unit)} {n : Nat} (hn : 0 < n) (depth : Nat) (info : Info)
    (use : HostUse) (text : String) (host : HostState Unit) (memory : Memory)
    (s : RunState (HostState Unit)) :
    ∃ e s', runHost cfg n depth info use (.finish (.error (.message text)) host memory) s = .failed e s' := by
  cases n with
  | zero => exact absurd hn (Nat.lt_irrefl 0)
  | succ n => exact ⟨_, _, rfl⟩

/-- What the checked call of a host function does, the unchecked one does too. -/
theorem hostCall_repeats (h : s.Agrees L r) {n N : Nat} (hle : n ≤ N) (depth : Nat) (info : Info)
    (callee : Expr) (key : FunctionKey) {vs ws : List Value} (hvw : List.Forall₂ (Stored L) vs ws) :
    Repeats 0 L s r Stored
      (runHost (.plain .safe F l) n depth info (.call callee)
        ((Setting.plain .safe F l).hosts.call key (s.view .safe) s.host s.memory vs) s)
      (runHost (.plain .raw F l) N depth info (.call callee)
        ((Setting.plain .raw F l).hosts.call key (r.view .raw) r.host r.memory ws) r) := by
  rcases Nat.eq_zero_or_pos n with rfl | hn
  · exact .exhausted
  have hN : 0 < N := by omega
  have hfinished (v : Value) (hv : v.Simple) (host : HostState Unit) :
      Repeats 0 L s r Stored
        (runHost (.plain .safe F l) n depth info (.call callee) (.finish (.ok v) host s.memory) s)
        (runHost (.plain .raw F l) N depth info (.call callee) (.finish (.ok v) host r.memory) r) := by
    rw [runHost_finish hn, runHost_finish hN]
    exact .done (.refl L) ⟨rfl, h.ticks, h.asked, h.calls, h.scopes, h.memory⟩ rfl rfl hv.stored
  have hrefused (text : String) (o : Outcome (HostState Unit) Value) :
      Repeats 0 L s r Stored
        (runHost (.plain .safe F l) n depth info (.call callee)
          (.finish (.error (.message text)) s.host s.memory) s) o := by
    obtain ⟨e, s', hfailed⟩ := runHost_failed hn depth info (.call callee) text s.host s.memory s
    rw [hfailed]
    exact .failed
  rw [Setting.hosts_plain, Setting.hosts_plain]
  cases key with
  | console f =>
    rw [Hosts.call_console, Hosts.call_console]
    cases hc : s.host.console.call s.memory f vs with
    | error text => exact hrefused text _
    | ok c =>
      have hc' := h.memory.console_call hvw hc
      dsimp only
      rw [h.host, hc']
      exact hfinished .absent ⟨trivial, rfl⟩ _
  | math f =>
    rw [Hosts.call_math, Hosts.call_math]
    cases hv : f.call true s.memory vs with
    | error text =>
      have hstrict : f.call ((s.view .safe).strategy != .raw) s.memory vs = .error text := hv
      rw [hstrict]
      exact hrefused text _
    | ok v =>
      have hcall : f.call false r.memory ws = .ok v ∧ v.Simple := MathFunction.call_lenient hvw hv
      obtain ⟨hv', hsimple⟩ := hcall
      have hstrict : f.call ((s.view .safe).strategy != .raw) s.memory vs = .ok v := hv
      have hlenient : f.call ((r.view .raw).strategy != .raw) r.memory ws = .ok v := hv'
      rw [hstrict, hlenient, h.host]
      exact hfinished v hsimple _
  | extra k =>
    rw [h.host]
    exact hfinished .absent ⟨trivial, rfl⟩ s.host

/-- Setting corresponding lengths keeps the memories in agreement. -/
theorem setLength_agrees {V : CellRef → CellRef → Prop} {m m' n : Memory} (h : m.Agrees L V m')
    {a b : ArrayRef} (hab : L.arrays a b) {v w : Value} (hvw : Stored L v w) (hn : m.setLength a v = .ok n) :
    ∃ n', m'.setLength b w = .ok n' ∧ n.Agrees L V n' := by
  cases v with
  | number x =>
    rw [hvw.number]
    dsimp only [Memory.setLength] at hn ⊢
    split at hn
    · cases hn
    · rename_i hvalid
      split at hn
      · cases hn
      · rename_i hshort
        cases hn
        rw [if_neg hvalid, if_neg hshort]
        exact ⟨_, rfl, h.resize hab _⟩
  | _ => cases hn

/-- A safe run that cannot assign fails, whatever the lenient one does. -/
theorem cannotAssign_repeats (info : Info) (target : Expr) (v : Value) {α' : Type} {k : Nat}
    {Q : Link → Unit → α' → Prop} (o : Outcome (HostState Unit) α') :
    Repeats k L s r Q (cannotAssign info target v s) o := by
  rw [cannotAssign_eq]
  exact .failed

/-- Writing values that agree to the same place. -/
theorem assignPlace_repeats (h : s.Agrees L r) (info : Info) (target : Expr) {p q v w : Value}
    (hpq : Places s r L p q) (hvw : Stored L v w) :
    Repeats 0 L s r (fun _ _ _ => True) (assignPlace info target p v s) (assignPlace info target q w r) := by
  have hwrite {c d : CellRef} (hcd : L.cells c d ∨ Bound s.scopes r.scopes c d) :
      Repeats 0 L s r (fun _ _ _ => True) (assignPlace info target (.cell c) v s)
        (assignPlace info target (.cell d) w r) :=
    .done (.refl L) (h.withMemory (h.memory.write h.scopes.oneToOne hcd hvw)) rfl rfl trivial
  cases hpq with
  | «variable» hcd => exact hwrite (Or.inr hcd)
  | value hpq =>
    cases hpq with
    | same hp =>
      cases p with
      | array | cell | arrayLength | pending => exact hp.elim
      | _ => exact cannotAssign_repeats info target v _
    | array => exact cannotAssign_repeats info target v _
    | cell hcd => exact hwrite (Or.inl hcd)
    | pending i hab =>
      rw [assignPlace_eq, assignPlace_eq]
      dsimp only
      cases hn : s.memory.setSlot _ i v with
      | none => exact .failed
      | some n =>
        obtain ⟨n', L', hn', hL, hmemory⟩ := h.memory.setSlot hab hvw hn
        rw [hn']
        exact .done hL (h.withMemory hmemory) rfl rfl trivial
    | arrayLength hab =>
      rw [assignPlace_eq, assignPlace_eq]
      dsimp only
      cases hn : s.memory.setLength _ v with
      | error fault => cases fault <;> exact .failed
      | ok n =>
        obtain ⟨n', hn', hmemory⟩ := setLength_agrees h.memory hab hvw hn
        rw [hn']
        exact .done (.refl L) (h.withMemory hmemory) rfl rfl trivial

/-- Writing a host variable runs what the host does. -/
theorem store_hostVariable {cfg : Setting (HostState Unit)} {x : HostVariable} {v : Value}
    {action : HostAction (HostState Unit)}
    (haction : cfg.hosts.set x.key (s.view cfg.strategy) s.host s.memory v = some action) (n depth : Nat)
    (info : Info) (target : Expr) :
    store cfg (n + 1) depth info target (.hostVariable x) v s =
      (do
        let _ ← runHost cfg n depth info (.assign target) action
        pure () : Run _ Unit) s := by
  simp only [store, bind, Run.andThen, Run.asks, haction]

/-- The color of the console is the only host variable that can be written. -/
theorem storeHost_repeats (h : s.Agrees L r) {n N : Nat} (hn : n ≤ N) (depth : Nat) (info : Info)
    (target : Expr) (x : HostVariable) {v w : Value} (hvw : Stored L v w) :
    Repeats 0 L s r (fun _ _ _ => True)
      (store (.plain .safe F l) (n + 1) depth info target (.hostVariable x) v s)
      (store (.plain .raw F l) (N + 1) depth info target (.hostVariable x) w r) := by
  have hrefused (text : String) (o : Outcome (HostState Unit) Unit)
      (hset : (Setting.plain .safe F l).hosts.set x.key (s.view .safe) s.host s.memory v =
        some (.finish (.error (.message text)) s.host s.memory)) :
      Repeats 0 L s r (fun _ _ _ => True)
        (store (.plain .safe F l) (n + 1) depth info target (.hostVariable x) v s) o := by
    rw [store_hostVariable hset]
    cases n <;> constructor
  obtain ⟨key, name⟩ := x
  cases key with
  | extra k => exact cannotAssign_repeats info target v _
  | math c => exact hrefused _ _ rfl
  | color =>
    cases hc : s.host.console.setColor s.memory v with
    | error text => exact hrefused text _ (by simp only [Setting.plain, Hosts.set_color, hc])
    | ok c =>
      have hcolor : s.host.console.setColor r.memory w = .ok c := Console.setColor_lenient hvw hc
      rw [← h.host] at hcolor
      have hsafe : (Setting.plain .safe F l).hosts.set .color (s.view .safe) s.host s.memory v =
          some (.finish (.ok .absent) { s.host with console := c } s.memory) := by
        simp only [Setting.plain, Hosts.set_color, hc]
      have hraw : (Setting.plain .raw F l).hosts.set .color (r.view .raw) r.host r.memory w =
          some (.finish (.ok .absent) { r.host with console := c } r.memory) := by
        simp only [Setting.plain, Hosts.set_color, hcolor]
      rw [store_hostVariable hsafe, store_hostVariable hraw, h.host]
      refine Repeats.bind (P := Stored) ?_ fun _ h' _ _ _ => .value h' trivial
      cases n with
      | zero => exact .exhausted
      | succ n =>
        rw [runHost_finish (by omega), runHost_finish (by omega)]
        exact .done (.refl L) ⟨rfl, h.ticks, h.asked, h.calls, h.scopes, h.memory⟩ rfl rfl
          ⟨.same trivial, rfl⟩

/-- Writing values that agree to the same place, which may belong to a host. -/
theorem store_repeats (h : s.Agrees L r) {n N : Nat} (hn : n ≤ N) (depth : Nat) (info : Info) (target : Expr)
    {p q v w : Value} (hpq : Places s r L p q) (hvw : Stored L v w) :
    Repeats 0 L s r (fun _ _ _ => True) (store (.plain .safe F l) n depth info target p v s)
      (store (.plain .raw F l) N depth info target q w r) := by
  cases n with
  | zero => exact .exhausted
  | succ n =>
    obtain ⟨N, rfl⟩ : ∃ k, N = k + 1 := ⟨N - 1, by omega⟩
    have hplaced := assignPlace_repeats h info target hpq hvw
    cases hpq with
    | «variable» => exact hplaced
    | value hpq =>
      cases hpq with
      | array | arrayLength | pending | cell => exact hplaced
      | same hp =>
        cases p with
        | hostVariable x => exact storeHost_repeats h (by omega) depth info target x hvw
        | _ => exact hplaced

end Primer
