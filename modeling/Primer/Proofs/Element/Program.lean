import Primer.Proofs.Element.Task
import Primer.Proofs.Run.Plain

/-!
# Assignments to elements

An assignment finds the place of its target before it evaluates its right-hand side, and writes to that place
afterwards. In between, functions may be called that make the array longer or shorter or write to its elements.

* A pending element is written to by its array and its number, so whatever became of the array, it then has the
  element.
* The cell of an element is written to as it is. If the array was long enough for the element all the time, then the
  element still lies in the cell. But if the array was cut off in between, then the cell may belong to nothing any
  more, and what is written to it is lost.

A statement with `++` or `--` evaluates nothing in between, so it loses nothing.
-/

set_option autoImplicit false

namespace Primer

open Run

variable {σ α : Type} {cfg : Setting σ} {H : Holding σ}

/-! ## Where runs start -/

/-- The standard hosts are orderly: they make no places and leave memory alone. -/
theorem Hosts.orderly_standard : (Hosts.standard Extras.none).Orderly (.unknown _) where
  member host o name v k _ hv := by
    rcases Hosts.apart_standard.member host o name v hv with ⟨f, rfl⟩ | ⟨w, rfl, -⟩ <;> exact trivial
  call key view host memory args _ _ := by
    obtain ⟨answer, host', hcall, hanswer⟩ := Hosts.apart_standard.call key view host memory args
    rw [hcall]
    refine ⟨?_, .refl memory, trivial⟩
    intro v hv
    rcases hanswer v hv with rfl | hbasic
    · exact trivial
    · exact Carries.settled_of_isBasic hbasic
  get key host memory _ := by
    cases key <;> exact ⟨_, _, _, rfl, settles_ok trivial, .refl memory, trivial⟩
  set key view host memory v _ _ action haction := by
    cases key with
    | color =>
      rw [Hosts.set_color] at haction
      split at haction <;> cases haction
      · exact ⟨settles_ok trivial, .refl memory, trivial⟩
      · exact ⟨settles_error _, .refl memory, trivial⟩
    | math c =>
      cases haction
      exact ⟨settles_error _, .refl memory, trivial⟩
    | extra n => cases haction

/-- A run starts settled if the memory that it is given is, and what its global names are bound to. -/
theorem RunState.settled_initialState {host : σ} {memory : Memory} (hmemory : memory.Settled)
    {globals : List (String × Value)} (hglobals : ∀ g ∈ globals, g.2.Settled memory.arrays.size)
    (hhost : H.holds host memory.arrays.size) : (initialState host memory globals).Settled H := by
  let W := Watch.ofArrays memory.arrays.size H
  have hdeclared (globals : List (String × Value)) (scope : Scope) (m : Memory)
      (hglobals : ∀ g ∈ globals, g.2.Settled memory.arrays.size)
      (h : (⟨m, host, scope, [], [], [], [], 0, []⟩ : RunState σ).Carries W) :
      (⟨(scope.declareAll m globals).2, host, (scope.declareAll m globals).1, [], [], [], [], 0, []⟩ :
        RunState σ).Carries W := by
    induction globals generalizing scope m with
    | nil => exact h
    | cons g rest ih =>
      obtain ⟨hg, hrest⟩ := List.forall_mem_cons.mp hglobals
      exact ih _ _ hrest (h.declare g.1 (hg.mono h.memory.arrays))
  have hstart : (⟨memory, host, Scope.empty, [], [], [], [], 0, []⟩ : RunState σ).Carries W := by
    refine ⟨⟨hmemory, Nat.le_refl _, nofun⟩, ?_, hhost⟩
    intro ℓ x v hx
    cases ℓ <;> cases hx
  exact (hdeclared globals _ _ hglobals hstart).settled

section Hosts

variable (hhosts : cfg.hosts.Orderly H)

include hhosts

/-- All states that a run comes by are settled, and so are those where plans are begun in it. -/
theorem Plan.Reaches.settled {t : Task σ α} {n : Nat} {s u : RunState σ} {e : Option Failure}
    (h : (Plan.ask t).Reaches cfg n s e u) (ht : t.Spares (.ofArrays 0 H)) (hs : s.Settled H) : u.Settled H := by
  have hcarries : (Plan.ask t).Carries cfg n (.ofArrays 0 H) (fun _ => True) (t.Answers (.ofArrays 0 H)) :=
    Task.carries hhosts Watch.inside_ofArrays n t ht
  exact (hcarries.reaches s e u hs.start (fun _ _ _ => trivial) h).settled

/-- What is evaluated gives no array that is not there. -/
theorem eval_carries {n depth k : Nat} {e : Expr} {v : Value} {s u : RunState σ} (hs : s.Carries (.ofArrays k H))
    (h : eval cfg n depth e s = .done v u) :
    u.Carries (.ofArrays u.memory.arrays.size H) ∧ v.Spares (.ofArrays u.memory.arrays.size H) ∧
      k ≤ u.memory.arrays.size := by
  have hcarries : (Plan.ask (.eval depth e)).Carries cfg n (.ofArrays k H) (fun _ => True)
      (Task.Answers (.ofArrays k H) (.eval depth e)) := Task.carries hhosts Watch.inside_ofArrays n _ trivial
  obtain ⟨hu, hv⟩ := hcarries.done hs (fun _ _ _ => trivial) h
  exact ⟨hu.upTo, hv, hu.memory.arrays⟩

end Hosts

/-! ## The places of elements -/

/-- An expression finds an element of an array, and its place. -/
inductive Expr.Finds (cfg : Setting σ) :
    Nat → Nat → Expr → RunState σ → ArrayRef → Nat → Value → RunState σ → Prop where
  | element {n depth info base position s b s₁ p s₂ a s₃ x t}
      (hbase : eval cfg n (depth + 1) base s = .done b s₁)
      (hposition : eval cfg n (depth + 1) position s₁ = .done p s₂)
      (harray : take cfg base b s₂ = .done (.array a) s₃)
      (hindex : take cfg position p s₃ = .done (.number x) t)
      (hwhole : Number.isWhole x = true) (hsign : ¬ x < 0.0) :
      Finds cfg (n + 1) depth (.element info base position) s a (indexOf x) (t.memory.slot a (indexOf x)).1
        { t with memory := (t.memory.slot a (indexOf x)).2 }

/-- An element expression finds an element, or it gives undefined. -/
theorem Expr.finds_of_eval {n depth : Nat} {info : Info} {base position : Expr} {s t : RunState σ} {place : Value}
    (h : eval cfg (n + 1) depth (.element info base position) s = .done place t) :
    place = .undefined ∨ ∃ a i, (Expr.element info base position).Finds cfg (n + 1) depth s a i place t := by
  have hrefused {message : String} {s : RunState σ}
      (h : (if cfg.isRaw then Pure.pure .undefined else raise .type info message : Run σ Value) s = .done place t) :
      place = .undefined := by
    split at h <;> cases h
    rfl
  simp only [eval] at h
  split at h
  · cases h
  obtain ⟨b, s₁, hbase, h⟩ := bind_eq_done h
  obtain ⟨p, s₂, hposition, h⟩ := bind_eq_done h
  obtain ⟨v, s₃, harray, h⟩ := bind_eq_done h
  obtain ⟨w, s₄, hindex, h⟩ := bind_eq_done h
  cases w
  case number x =>
    simp only at h
    split at h
    case isTrue => exact .inl (hrefused h)
    case isFalse hwhole =>
      split at h
      case isTrue => exact .inl (hrefused h)
      case isFalse hsign =>
        cases v with
        | array a =>
          simp only [integerIndex_eq hsign, elementAt_eq] at h
          cases h
          rw [Bool.not_eq_true, Bool.not_eq_false'] at hwhole
          exact .inr ⟨a, indexOf x, .element hbase hposition harray hindex hwhole hsign⟩
        | _ => cases h
  all_goals exact .inl (hrefused h)

/-- An expression finds one element. -/
theorem Expr.Finds.unique {n depth i j : Nat} {e : Expr} {s t u : RunState σ} {a b : ArrayRef} {p q : Value}
    (h : e.Finds cfg n depth s a i p t) (h' : e.Finds cfg n depth s b j q u) : a = b ∧ i = j ∧ p = q ∧ t = u := by
  cases h with
  | element hbase hposition harray hindex =>
    cases h' with
    | element hbase' hposition' harray' hindex' =>
      cases hbase.symm.trans hbase'
      cases hposition.symm.trans hposition'
      cases harray.symm.trans harray'
      cases hindex.symm.trans hindex'
      exact ⟨rfl, rfl, rfl, rfl⟩

/-- An expression that gives a place to store something in finds an element. -/
theorem Expr.finds_of_store {n k depth depth' : Nat} {info info' : Info} {base position target : Expr}
    {s t w x : RunState σ} {place v : Value}
    (h : eval cfg n depth (.element info base position) s = .done place t)
    (hstore : store cfg k depth' info' target place v w = .done () x) :
    ∃ a i, (Expr.element info base position).Finds cfg n depth s a i place t := by
  cases n with
  | zero => cases h
  | succ n =>
    rcases finds_of_eval h with rfl | hfinds
    · cases k with
      | zero => cases hstore
      | succ k =>
        change cannotAssign info' target v w = .done () x at hstore
        rw [cannotAssign_eq] at hstore
        cases hstore
    · exact hfinds

/-- What is found is the place of the element. -/
theorem Expr.Finds.placeOf {n depth i : Nat} {e : Expr} {s t : RunState σ} {a : ArrayRef} {place : Value}
    (h : e.Finds cfg n depth s a i place t) (hhosts : cfg.hosts.Orderly H) (hs : s.Settled H) :
    t.memory.PlaceOf a i place := by
  cases h with
  | element hbase hposition harray hindex =>
    obtain ⟨hs₁, hb, -⟩ := eval_carries hhosts hs.start hbase
    obtain ⟨hs₂, hp, hk⟩ := eval_carries hhosts hs₁ hposition
    obtain ⟨hs₃, ha⟩ := (Carries.take hhosts _ (hb.mono hk)).done hs₂ harray
    obtain ⟨ht, -⟩ := (Carries.take hhosts _ (hp.mono hs₃.memory.arrays)).done hs₃.upTo hindex
    refine Memory.placeOf_slot _ ?_
    rw [Memory.size_arrays_slot]
    exact Nat.lt_of_lt_of_le ha ht.memory.arrays

/-! ## What is stored -/

/-- An assignment evaluates its right-hand side and makes the value that it stores. -/
def Assignment.Gives (cfg : Setting σ) (n depth : Nat) (a : Assignment) (place : Value) (s : RunState σ) (v : Value)
    (t : RunState σ) : Prop :=
  ∃ given u, eval cfg n depth a.value s = .done given u ∧ assignedAction cfg a place given u = .done v t

/-- Narrating a step leaves the memory as it is. -/
theorem memory_of_narrate {category : Category} {node : NodeId} {message : Memory → String}
    {changes : Unit → List Change} {s t : RunState σ} {u : Unit}
    (h : narrate cfg category node message changes s = .done u t) : t.memory = s.memory := by
  unfold narrate at h
  split at h <;> cases h <;> rfl

/-- An assignment that is done has evaluated, taken and stored. -/
theorem execAssign_eq_done {n depth : Nat} {a : Assignment} {s u : RunState σ}
    (h : execAssign cfg (n + 1) depth a s = .done () u) : ∃ place t v w x,
      eval cfg n depth a.target s = .done place t ∧ a.Gives cfg n depth place t v w ∧
        store cfg n depth a.info a.target place v w = .done () x ∧ u.memory = x.memory := by
  obtain ⟨place, t, htarget, h⟩ := bind_eq_done h
  obtain ⟨given, r, hvalue, h⟩ := bind_eq_done h
  obtain ⟨v, w, hassigned, h⟩ := bind_eq_done h
  obtain ⟨_, x, hstore, h⟩ := bind_eq_done h
  rw [narrateAssigned_eq] at h
  exact ⟨place, t, v, w, x, htarget, ⟨given, r, hvalue, hassigned⟩, hstore, memory_of_narrate h⟩

/-- An increment or decrement that is done has evaluated, taken and stored. -/
theorem exec_bump_eq_done {n depth : Nat} {info : Info} {target : Expr} {symbol : String} {r : Option Value}
    {s u : RunState σ} (h : exec cfg (n + 1) depth (.bump info target symbol) s = .done r u) :
    ∃ s' place t v w x, tick cfg info s = .done () s' ∧ eval cfg n depth target s' = .done place t ∧
      bumpAction cfg info target symbol place t = .done v w ∧
        store cfg n depth info target place v w = .done () x ∧ u.memory = x.memory := by
  obtain ⟨_, s', htick, h⟩ := bind_eq_done h
  obtain ⟨place, t, htarget, h⟩ := bind_eq_done h
  obtain ⟨v, w, hbumped, h⟩ := bind_eq_done h
  obtain ⟨_, x, hstore, h⟩ := bind_eq_done h
  obtain ⟨_, y, hnarrated, h⟩ := bind_eq_done h
  rw [narrateAssigned_eq] at hnarrated
  cases h
  exact ⟨s', place, t, v, w, x, htick, htarget, hbumped, hstore, memory_of_narrate hnarrated⟩

/-- An element has what is stored in its place. -/
theorem elementIs_of_store {n depth i : Nat} {info : Info} {target : Expr} {a : ArrayRef} {place v : Value}
    {s t : RunState σ} (hs : s.memory.Settled) (hplace : s.memory.PlaceOf a i place)
    (h : store cfg n depth info target place v s = .done () t) : t.memory.ElementIs a i v := by
  cases n with
  | zero => cases h
  | succ n =>
    cases hplace with
    | inside hr =>
      cases h
      exact Memory.elementIs_write hs hr v
    | behind harray =>
      change assignPlace info target (.pending a i) v s = .done () t at h
      rw [assignPlace_eq] at h
      simp only at h
      split at h <;> cases h
      exact Memory.elementIs_setSlot harray ‹_›

section Storing

variable {n depth i : Nat} {A : ArrayRef} {place v : Value} {s t u : RunState σ}

/-- What is watched lasts while an assignment makes its value. -/
theorem Assignment.Gives.carries {W : Watch σ} {C : RunState σ → Prop} {a : Assignment}
    (h : a.Gives cfg n depth place s v t) (hhosts : cfg.hosts.Orderly W.hosts) (hinside : W.Inside C)
    (hs : s.Carries W) (hplace : place.Spares W) (hmeets : (Plan.ask (.eval depth a.value)).Meets cfg n C s) :
    t.Carries W := by
  obtain ⟨given, u, heval, hassigned⟩ := h
  obtain ⟨hu, hgiven⟩ := (Task.carries hhosts hinside n (.eval depth a.value) trivial).done hs hmeets heval
  have harrays := hu.memory.arrays
  have hassigns : (Plan.assigned cfg a place given).Carries cfg n (W.upTo u.memory.arrays.size) (fun _ => True)
      Value.Settled := .assigned (W := W.upTo u.memory.arrays.size) hhosts a (hplace.mono harrays) hgiven
  rw [← Plan.run_assigned cfg n] at hassigned
  exact (hassigns.done hu.upTo (fun _ _ _ => trivial) hassigned).1.of_upTo harrays

/-- What is watched lasts while `++` or `--` make a number. -/
theorem bumpAction_carries {W : Watch σ} {info : Info} {target : Expr} {symbol : String}
    (h : bumpAction cfg info target symbol place s = .done v t) (hhosts : cfg.hosts.Orderly W.hosts)
    (hs : s.Carries W) (hplace : place.Spares W) : t.Carries W := by
  have hplan : (Plan.bump cfg info target symbol place).Carries cfg 0 W (fun _ => True) Value.Settled :=
    .bump hhosts info target symbol hplace
  rw [← Plan.run_bump cfg 0] at h
  exact (hplan.done hs (fun _ _ _ => trivial) h).1

variable (hhosts : cfg.hosts.Orderly H) (hs : s.Settled H)

include hs

/-- In a settled state the arrays up to a given one may be watched. -/
theorem RunState.Settled.carries_array (hA : A < s.memory.arrays.size) : s.Carries (.ofArrays (A + 1) H) :=
  hs.carries hA nofun

/-- In a settled state each of its elements may be watched. -/
theorem RunState.Settled.carries_element {r : CellRef} (hr : s.memory.Has ⟨A, i, r⟩) :
    s.Carries ⟨0, H, some ⟨A, i, r⟩⟩ := by
  refine hs.carries (Nat.zero_le _) ?_
  rintro _ ⟨⟩
  exact hr

include hhosts

/-- The value of an assignment gets into the element that was found, unless the array came to be too short for it. -/
theorem Assignment.Gives.stored {a : Assignment} (h : a.Gives cfg n depth place s v t)
    (hplace : s.memory.PlaceOf A i place) (hstore : store cfg n depth a.info a.target place v t = .done () u) :
    u.memory.ElementIs A i v ∨ i < s.memory.size A ∧
      (∃ e z, (Plan.ask (.eval depth a.value)).Reaches cfg n s e z ∧ z.memory.size A ≤ i) ∧
      ∀ w, u.memory.ElementIs A i w ↔ t.memory.ElementIs A i w := by
  have hspares {k : Nat} : place.Spares (.ofArrays k H) := by
    cases hplace with
    | inside => exact trivial
    | behind => exact nofun
  have hlasts {k : Nat} (hstart : s.Carries (.ofArrays k H)) : t.Carries (.ofArrays k H) :=
    h.carries (C := fun _ => True) hhosts Watch.inside_ofArrays hstart hspares fun _ _ _ => trivial
  cases hplace with
  | behind hA =>
    have hend := hlasts (hs.carries_array hA)
    exact .inl (elementIs_of_store hend.memory.settled (.behind hend.memory.arrays) hstore)
  | @inside r hr =>
    have hinside : (⟨0, H, some ⟨A, i, r⟩⟩ : Watch σ).Inside fun z => i < z.memory.size A := by
      rintro z hz _ ⟨⟩
      exact hz
    by_cases hkept : t.memory.Has ⟨A, i, r⟩
    · have hend := hlasts hs.start
      exact .inl (elementIs_of_store hend.memory.settled (.inside hkept) hstore)
    · refine .inr ⟨hr.lt_size, ?_, ?_⟩
      · apply Classical.byContradiction
        intro hnever
        have hlong : (Plan.ask (.eval depth a.value)).Meets cfg n (fun z => i < z.memory.size A) s :=
          fun e z hz => Nat.lt_of_not_le fun hshort => hnever ⟨e, z, hz, hshort⟩
        have hend := h.carries hhosts hinside (hs.carries_element hr) trivial hlong
        exact hkept (hend.memory.element _ rfl)
      · intro w
        cases n with
        | zero => cases hstore
        | succ n =>
          cases hstore
          exact Memory.elementIs_write_iff hkept v w

/-- The number that `++` or `--` makes gets into the element that was found. -/
theorem bumpAction_stored {info : Info} {target : Expr} {symbol : String}
    (h : bumpAction cfg info target symbol place s = .done v t) (hplace : s.memory.PlaceOf A i place)
    (hstore : store cfg n depth info target place v t = .done () u) : u.memory.ElementIs A i v := by
  cases hplace with
  | behind hA =>
    have hend := bumpAction_carries h hhosts (hs.carries_array hA) nofun
    exact elementIs_of_store hend.memory.settled (.behind hend.memory.arrays) hstore
  | @inside r hr =>
    have hend := bumpAction_carries h hhosts (hs.carries_element hr) trivial
    exact elementIs_of_store hend.memory.settled (.inside (hend.memory.element _ rfl)) hstore

end Storing

/-- For every strategy, filter and limits, all orderly hosts, every program that starts settled, and every state that
its run comes by: an assignment to an element that succeeds, compound or not, has found an element of an array and made
a value. Afterwards, the array has the element, and it holds the value, whatever the right-hand side did, with one
exception. If the element was not behind the end when it was found, and while the right-hand side was evaluated, the
array came to be too short for it, then the value may be lost: the element is as it was before the value was written.
A statement with `++` or `--` that succeeds never loses what it makes. -/
theorem element_holds_value_unless_cut_off (hhosts : cfg.hosts.Orderly H) {s : RunState σ} (hs : s.Settled H)
    (body : List Stmt) {n k depth : Nat} {t : RunState σ} :
    (∀ (a : Assignment) info base position u, a.target = .element info base position →
      (Plan.ask (.execAll 0 body)).Begins cfg n s (k + 1) (.ask (.execAssign depth a)) t →
      execAssign cfg (k + 1) depth a t = .done () u →
      ∃ A i place t' v w, a.target.Finds cfg k depth t A i place t' ∧ a.Gives cfg k depth place t' v w ∧
        ((i < u.memory.size A ∧ u.memory.ElementIs A i v) ∨
          (i < t'.memory.size A ∧
            (∃ e z, (Plan.ask (.eval depth a.value)).Reaches cfg k t' e z ∧ z.memory.size A ≤ i) ∧
            ∀ v', u.memory.ElementIs A i v' ↔ w.memory.ElementIs A i v'))) ∧
    ∀ info target base position symbol r u, target = .element info base position →
      (Plan.ask (.execAll 0 body)).Begins cfg n s (k + 1) (.ask (.exec depth (.bump info target symbol))) t →
      exec cfg (k + 1) depth (.bump info target symbol) t = .done r u →
      ∃ s' A i place t' v w, tick cfg info t = .done () s' ∧ target.Finds cfg k depth s' A i place t' ∧
        bumpAction cfg info target symbol place t' = .done v w ∧ i < u.memory.size A ∧ u.memory.ElementIs A i v := by
  constructor
  · intro a info base position u htarget hbegun hdone
    have ht := hbegun.reaches.settled hhosts trivial hs
    obtain ⟨place, t', v, w, x, heval, hgives, hstore, hmemory⟩ := execAssign_eq_done hdone
    have ht' := (eval_carries hhosts ht.start heval).1.settled
    rw [htarget] at heval ⊢
    obtain ⟨A, i, hfinds⟩ := Expr.finds_of_store heval hstore
    refine ⟨A, i, place, t', v, w, hfinds, hgives, ?_⟩
    rw [hmemory]
    apply (hgives.stored hhosts ht' (hfinds.placeOf hhosts ht) hstore).imp_left
    intro hstored
    exact ⟨hstored.lt_size, hstored⟩
  · intro info target base position symbol r u htarget hbegun hdone
    have ht := hbegun.reaches.settled hhosts trivial hs
    obtain ⟨s', place, t', v, w, x, htick, heval, hbumped, hstore, hmemory⟩ := exec_bump_eq_done hdone
    have hs' := ((Carries.tick cfg info).done ht.start htick).1.settled
    have ht' := (eval_carries hhosts hs'.start heval).1.settled
    subst htarget
    obtain ⟨A, i, hfinds⟩ := Expr.finds_of_store heval hstore
    have hstored := bumpAction_stored hhosts ht' hbumped (hfinds.placeOf hhosts hs') hstore
    rw [← hmemory] at hstored
    exact ⟨s', A, i, place, t', v, w, htick, hfinds, hbumped, hstored.lt_size, hstored⟩

/-- The statement `a[i] = cut();`. -/
def assignsCut (i : Float) : Assignment :=
  let name (x : String) : Expr := .name ⟨0, ⟨x, 1, 1⟩⟩ x
  ⟨⟨0, ⟨"a", 1, 1⟩⟩, .element ⟨0, ⟨"a", 1, 1⟩⟩ (name "a") (.number ⟨0, ⟨"i", 1, 3⟩⟩ i "i"), "=",
    .call ⟨0, ⟨"cut", 1, 8⟩⟩ (name "cut") []⟩

/-- A state in which `a` is an array with two elements, and `cut` a function with the body
`a.length = 0; return 9;`. -/
def RunState.beforeCut : RunState (HostState Unit) :=
  let length : Expr := .member ⟨0, ⟨"a", 1, 1⟩⟩ (.name ⟨0, ⟨"a", 1, 1⟩⟩ "a") "length"
  initialState ⟨Console.empty, ()⟩ (Memory.empty.newArray [.number 1.0, .number 2.0]).2
    [("a", .array 0), ("cut", .function ⟨0, ⟨0, ⟨"function", 1, 1⟩⟩, "cut", [],
      [.assign ⟨⟨0, ⟨"a", 1, 1⟩⟩, length, "=", .number ⟨0, ⟨"0", 1, 1⟩⟩ 0.0 "0"⟩,
        .return ⟨0, ⟨"return", 1, 1⟩⟩ (some (.number ⟨0, ⟨"9", 1, 1⟩⟩ 9.0 "9"))]⟩)]

/-- The state before the cut is settled. -/
theorem RunState.settled_beforeCut : RunState.beforeCut.Settled (.unknown _) := by
  have hnumbers : ∀ v ∈ [Value.number 1.0, Value.number 2.0], v.Settled Memory.empty.arrays.size := by
    simp only [List.forall_mem_cons, List.not_mem_nil]
    exact ⟨trivial, trivial, nofun⟩
  have hmemory := (Memory.advances_newArray _ hnumbers).settled Memory.settled_empty
  unfold RunState.beforeCut
  refine RunState.settled_initialState hmemory ?_ trivial
  simp only [List.forall_mem_cons, List.not_mem_nil]
  exact ⟨Nat.zero_lt_one, trivial, nofun⟩

section Cut

variable {i : Float} {t : RunState (HostState Unit)}
  (htick : tick (.plain .safe none .none) (assignsCut i).info .beforeCut = .done () t)

include htick

/-- The assignment is begun where the statement is run on its own. -/
theorem begins_assignsCut : (Plan.ask (.execAll 0 [.assign (assignsCut i)])).Begins (.plain .safe none .none) 22
    .beforeCut 20 (.ask (.execAssign 0 (assignsCut i))) t :=
  .ask (.first (.ask (.next htick (.first .here))))

/-- It finds an element of the array. -/
theorem finds_assignsCut (hfinite : Number.isFinite i = true) (hwhole : Number.isWhole i = true)
    (hsign : ¬ i < 0.0) : (assignsCut i).target.Finds (.plain .safe none .none) 19 0 t 0 (indexOf i)
      (t.memory.slot 0 (indexOf i)).1 { t with memory := (t.memory.slot 0 (indexOf i)).2 } := by
  cases htick
  let t : RunState (HostState Unit) := { RunState.beforeCut with ticks := 1 }
  have harray {e : Expr} : take (.plain .safe none .none) e (.cell 2) t = .done (.array 0) t := rfl
  have hindex {e : Expr} : take (.plain .safe none .none) e (.number i) t = .done (.number i) t := by
    show (if Number.isFinite i then Pure.pure (.number i) else unusable e "not a valid number" : Run _ Value) t = _
    rw [if_pos hfinite]
    rfl
  exact .element rfl rfl harray hindex hwhole hsign

end Cut

/-- The assignment to the element runs as it is evaluated. -/
theorem runs_assignsCut {i : Float} {test : Unit → RunState (HostState Unit) → Bool}
    (h : ((tick (.plain .safe none .none) (assignsCut i).info >>= fun _ =>
      execAssign (.plain .safe none .none) 20 0 (assignsCut i)) .beforeCut).gives test = true) :
    ∃ t u, tick (.plain .safe none .none) (assignsCut i).info .beforeCut = .done () t ∧
      execAssign (.plain .safe none .none) 20 0 (assignsCut i) t = .done () u ∧ test () u = true := by
  generalize hrun : (tick _ _ >>= _) RunState.beforeCut = o at h
  cases o with
  | done a u =>
    obtain ⟨_, t, htick, hdone⟩ := bind_eq_done hrun
    exact ⟨t, u, htick, hdone, h⟩
  | failed e u => cases h
  | exhausted => cases h

/-- What is assigned to an element behind the end is not lost, though the array is cut off before. -/
theorem element_behind_end_holds_value : ∃ t u v w,
    (Plan.ask (.execAll 0 [.assign (assignsCut 5.0)])).Begins (.plain .safe none .none) 22 .beforeCut 20
      (.ask (.execAssign 0 (assignsCut 5.0))) t ∧
    (assignsCut 5.0).Gives (.plain .safe none .none) 19 0 (.pending 0 5) t v w ∧
    execAssign (.plain .safe none .none) 20 0 (assignsCut 5.0) t = .done () u ∧
    5 < u.memory.size 0 ∧ u.memory.ElementIs 0 5 v := by
  have hran : ((tick (.plain .safe none .none) (assignsCut 5.0).info >>= fun _ =>
      execAssign (.plain .safe none .none) 20 0 (assignsCut 5.0)) .beforeCut).gives (fun _ _ => true) = true := by
    decide +kernel
  obtain ⟨t, u, htick, hdone, -⟩ := runs_assignsCut hran
  have hfinds := finds_assignsCut htick (by decide +kernel) (by decide +kernel) (by decide +kernel)
  have hfive : indexOf 5.0 = 5 := by decide +kernel
  rw [hfive] at hfinds
  have hbegun := begins_assignsCut htick
  obtain ⟨A, i, place, t', v, w, hfinds', hgives, hstored⟩ :=
    (element_holds_value_unless_cut_off Hosts.orderly_standard RunState.settled_beforeCut [.assign (assignsCut 5.0)]).1
      (assignsCut 5.0) _ _ _ u rfl hbegun hdone
  obtain ⟨rfl, rfl, rfl, rfl⟩ := hfinds.unique hfinds'
  cases htick
  refine ⟨_, u, v, w, hbegun, hgives, hdone, ?_⟩
  apply hstored.resolve_right
  intro hcut
  have hlong : ¬ 5 < 2 := by decide
  exact hlong hcut.1

/-- What is assigned to the first element is lost, since the array is cut off before. -/
theorem element_assignment_lost : ∃ t u v w,
    (Plan.ask (.execAll 0 [.assign (assignsCut 0.0)])).Begins (.plain .safe none .none) 22 .beforeCut 20
      (.ask (.execAssign 0 (assignsCut 0.0))) t ∧
    (assignsCut 0.0).target.Finds (.plain .safe none .none) 19 0 t 0 0 (.cell 0) t ∧
    (assignsCut 0.0).Gives (.plain .safe none .none) 19 0 (.cell 0) t v w ∧
    execAssign (.plain .safe none .none) 20 0 (assignsCut 0.0) t = .done () u ∧
    ¬ (0 < u.memory.size 0 ∧ u.memory.ElementIs 0 0 v) := by
  have hran : ((tick (.plain .safe none .none) (assignsCut 0.0).info >>= fun _ =>
      execAssign (.plain .safe none .none) 20 0 (assignsCut 0.0)) .beforeCut).gives (fun _ u =>
        u.memory.size 0 == 0) = true := by
    decide +kernel
  obtain ⟨t, u, htick, hdone, hempty⟩ := runs_assignsCut hran
  have hfinds := finds_assignsCut htick (by decide +kernel) (by decide +kernel) (by decide +kernel)
  have hzero : indexOf 0.0 = 0 := by decide +kernel
  rw [hzero] at hfinds
  obtain ⟨place, t', v, w, x, heval, hgives, hstore, -⟩ := execAssign_eq_done hdone
  obtain ⟨A, i, hfinds'⟩ := Expr.finds_of_store heval hstore
  obtain ⟨rfl, rfl, rfl, rfl⟩ := hfinds.unique hfinds'
  have hbegun := begins_assignsCut htick
  cases htick
  refine ⟨_, u, v, w, hbegun, hfinds, hgives, hdone, ?_⟩
  intro hlonger
  rw [eq_of_beq hempty] at hlonger
  exact Nat.not_lt_zero _ hlonger.1

end Primer
