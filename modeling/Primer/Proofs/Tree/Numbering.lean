import Mathlib.Data.List.Induction
import Primer.Proofs.Sound.Tree
import Primer.Tree.Walk

/-!
# Numbers follow the walk

Nodes take their numbers from a counter while they are built, at every place where a node is made; the walk lists
the parts of a node on its own. The two agree: whatever is built takes the numbers that its walk meets, in that
order and without a gap. So the numbers of a program are those below its count, each carried by one node, and the
index leads from a number back to its node.

What is known of a part that is being built is which numbers were taken since its walk began
(`Source.Build.Takes`). Each part adds the numbers of its own walk to those taken before it, and so the lemmas of
parts compose in the order in which parts are built.
-/

set_option autoImplicit false

namespace Primer

/-! ## The numbers of a walk -/

/-- The numbers of nodes, in order. -/
def numbers (nodes : List Node) : List NodeId := nodes.map fun n => n.info.id

/-- No nodes have no numbers. -/
@[simp]
theorem numbers_nil : numbers [] = [] := rfl

/-- The first node gives the first number. -/
@[simp]
theorem numbers_cons (n : Node) (nodes : List Node) : numbers (n :: nodes) = n.info.id :: numbers nodes := rfl

/-- The numbers of nodes in a row stand in a row. -/
@[simp]
theorem numbers_append (nodes rest : List Node) : numbers (nodes ++ rest) = numbers nodes ++ numbers rest := by
  simp only [numbers, List.map_append]

/-- An expression as a node keeps its place. -/
@[simp]
theorem Expr.node_info (e : Expr) : e.node.info = e.info := rfl

/-- A statement as a node keeps its place. -/
@[simp]
theorem Stmt.node_info (s : Stmt) : s.node.info = s.info := rfl

/-- Bodies in a row are walked in a row. -/
theorem Stmt.walkAll_append (body rest : List Stmt) :
    Stmt.walkAll (body ++ rest) = Stmt.walkAll body ++ Stmt.walkAll rest := by
  induction body with
  | nil => simp [Stmt.walkAll]
  | cons s body ih => simp [Stmt.walkAll, ih]

/-- A statement that may be missing is walked like a body of at most one. -/
theorem Stmt.walkAll_toList (s : Option Stmt) : Stmt.walkAll s.toList = Stmt.walkOption s := by
  cases s <;> simp [Stmt.walkAll, Stmt.walkOption]

/-- The numbers from one on, without a gap, up to the number that is free next. -/
structure Consecutive (first : NodeId) (ids : List NodeId) (next : NodeId) : Prop where
  ids_eq : ids = List.range' first ids.length
  next_eq : next = first + ids.length

namespace Consecutive

/-- No numbers follow each other from any start. -/
theorem nil (first : NodeId) : Consecutive first [] first := by
  constructor <;> simp

/-- The next number goes on with consecutive ones. -/
theorem concat {first next : NodeId} {ids : List NodeId} (h : Consecutive first ids next) :
    Consecutive first (ids ++ [next]) (next + 1) := by
  constructor
  · rw [List.length_append, List.length_singleton, List.range'_concat, ← h.ids_eq, Nat.one_mul, ← h.next_eq]
  · simp [h.next_eq, Nat.add_assoc]

/-- The last number is as far behind the first as there are numbers before it. -/
theorem of_concat {first id next : NodeId} {ids : List NodeId} (h : Consecutive first (ids ++ [id]) next) :
    id = first + ids.length ∧ Consecutive first ids id := by
  have hids := h.ids_eq
  rw [List.length_append, List.length_singleton, List.range'_concat, Nat.one_mul] at hids
  obtain ⟨hfront, hlast⟩ := List.append_inj' hids rfl
  rw [List.singleton_inj] at hlast
  exact ⟨hlast, hfront, hlast⟩

end Consecutive

/-! ## What building takes -/

namespace Source

variable {α β : Type}

/-- Whenever the given numbers were taken without a gap before a part is built, the numbers taken since are, with
those of the part, without a gap as well. -/
structure Build.Takes (before : List NodeId) (x : Build α) (after : α → List NodeId) : Prop where
  of_ok : ∀ first id a id', Consecutive first before id → x id = .ok (a, id') → Consecutive first (after a) id'

namespace Build.Takes

variable {before : List NodeId}

/-- Building without a node takes no number. -/
theorem pure {after : α → List NodeId} {a : α} (h : before = after a) : Takes before (Pure.pure a) after := by
  constructor
  rintro first id _ _ htaken ⟨⟩
  rw [← h]
  exact htaken

/-- A refusal builds nothing, so there is nothing to number. -/
theorem refuse {after : α → List NodeId} (o : Origin) (off : Nat) (message : String) :
    Takes before (Source.refuse o off message) after := by
  constructor
  rintro first id a id' _ ⟨⟩

/-- What one step took, the next one goes on with. -/
theorem bind {middle : α → List NodeId} {after : β → List NodeId} {x : Build α} {f : α → Build β}
    (hx : Takes before x middle) (hf : ∀ a, Takes (middle a) (f a) after) : Takes before (x >>= f) after := by
  constructor
  intro first id b id'' htaken h
  change (x id >>= fun result => f result.1 result.2) = .ok (b, id'') at h
  cases hxid : x id with
  | error d =>
    rw [hxid] at h
    cases h
  | ok result =>
    rw [hxid] at h
    apply (hf result.1).of_ok first result.2 b id'' _ h
    exact hx.of_ok first id result.1 result.2 htaken hxid

/-- What would follow a refusal is not built. -/
theorem refused {after : β → List NodeId} (o : Origin) (off : Nat) (message : String) (f : α → Build β) :
    Takes before (Source.refuse o off message >>= f) after := by
  constructor
  rintro first id b id' _ ⟨⟩

/-- A node takes the next number. -/
theorem fresh (token : Token) : Takes before (freshInfo token) fun info => before ++ [info.id] := by
  constructor
  rintro first id _ _ htaken ⟨⟩
  exact htaken.concat

/-- A node takes the next number, and then its parts are built. -/
theorem node {after : β → List NodeId} {token : Token} {f : Info → Build β}
    (hf : ∀ info, Takes (before ++ [info.id]) (f info) after) : Takes before (freshInfo token >>= f) after :=
  bind (fresh token) hf

/-- Looking for a semicolon takes no number. -/
theorem semicolon (o : Origin) (stop : Nat) : Takes before (requireSemicolon o stop) fun _ => before := by
  constructor
  intro first id a id' htaken h
  unfold requireSemicolon at h
  split at h
  · cases h
    exact htaken
  · cases h

end Build.Takes

open Build.Takes (node)

variable (o : Origin)

/-! ## Expressions -/

mutual

/-- Building an expression takes the numbers of its walk, in its order. -/
theorem buildExpr_takes : ∀ (t : Term) (before : List NodeId),
    Build.Takes before (buildExpr o t) fun e => before ++ numbers e.walk
  | .number .., _ | .string .., _ | .boolean .., _ | .null _, _ | .name .., _ => node fun info => .pure (by
      simp [Expr.walk, Expr.info])
  | .dot left _ _, _ => by
    apply node
    intro info
    refine .bind (buildExpr_takes left _) ?_
    intro object
    exact .pure (by simp [Expr.walk, Expr.info])
  | .bracket left position _, _ => by
    apply node
    intro info
    refine .bind (buildExpr_takes left _) ?_
    intro base
    refine .bind (buildExpr_takes position _) ?_
    intro index
    exact .pure (by simp [Expr.walk, Expr.info])
  | .call callee args _, _ => by
    apply node
    intro info
    refine .bind (buildExpr_takes callee _) ?_
    intro f
    refine .bind (buildExprs_takes args _) ?_
    intro arguments
    exact .pure (by simp [Expr.walk, Expr.info])
  | .array _ items _, _ => by
    apply node
    intro info
    refine .bind (buildExprs_takes items _) ?_
    intro values
    exact .pure (by simp [Expr.walk, Expr.info])
  | .binary left symbol right, before => by
    unfold buildExpr
    split
    · apply node
      intro info
      apply Build.Takes.bind (buildExpr_takes left _)
      intro l
      apply Build.Takes.bind (buildExpr_takes right _)
      intro r
      apply Build.Takes.pure
      simp [Expr.walk, Expr.info]
    · apply Build.Takes.refuse
  | .unary start symbol operand, before => by
    unfold buildExpr
    split
    · apply Build.Takes.refuse
    · split
      · apply node
        intro info
        apply Build.Takes.bind (buildExpr_takes operand _)
        intro e
        apply Build.Takes.pure
        simp [Expr.walk, Expr.info]
      · apply Build.Takes.refuse
  | .bumped .., _ | .assign .., _ | .foreign .., _ => .refuse ..

/-- Building several expressions takes the numbers of their walks. -/
theorem buildExprs_takes : ∀ (ts : List Term) (before : List NodeId),
    Build.Takes before (buildExprs o ts) fun es => before ++ numbers (Expr.walkAll es)
  | [], _ => .pure (by simp [Expr.walkAll])
  | t :: ts, _ => by
    refine .bind (buildExpr_takes t _) ?_
    intro e
    refine .bind (buildExprs_takes ts _) ?_
    intro es
    exact .pure (by simp [Expr.walkAll])

end

/-! ## Simple statements -/

variable (before : List NodeId)

/-- Building a target takes the numbers of its walk. -/
theorem buildTarget_takes (t : Term) :
    Build.Takes before (buildTarget o t) fun e => before ++ numbers e.walk := by
  unfold buildTarget
  split
  · apply buildExpr_takes
  · apply Build.Takes.refuse

/-- Building an assignment takes the numbers of its walk. -/
theorem buildAssignment_takes (left : Term) (symbol : String) (right : Term) :
    Build.Takes before (buildAssignment o left symbol right) fun a => before ++ numbers a.walk := by
  unfold buildAssignment
  split
  · apply node
    intro info
    apply Build.Takes.bind (buildTarget_takes o _ left)
    intro target
    apply Build.Takes.bind (buildExpr_takes o right _)
    intro value
    apply Build.Takes.pure
    simp [Assignment.walk]
  · apply Build.Takes.refuse

/-- Building a simple statement takes the numbers of its walk. -/
theorem buildSimple_takes (t : Term) :
    Build.Takes before (buildSimple o t) fun s => before ++ numbers s.walk := by
  cases t
  case assign left symbol right =>
    apply Build.Takes.bind (buildAssignment_takes o _ left symbol right)
    intro a
    apply Build.Takes.pure
    simp [Stmt.walk]
  case bumped operand symbol =>
    apply node
    intro info
    apply Build.Takes.bind (buildTarget_takes o _ operand)
    intro target
    apply Build.Takes.pure
    simp [Stmt.walk, Stmt.info]
  case call callee args stop =>
    -- The statement takes a number and its call takes the next one, both before the callee.
    apply node
    intro info
    apply node
    intro callInfo
    apply Build.Takes.bind (buildExpr_takes o callee _)
    intro f
    apply Build.Takes.bind (buildExprs_takes o args _)
    intro arguments
    apply Build.Takes.pure
    simp [Stmt.walk, Stmt.info, Call.toExpr, Expr.walk, Expr.info]
  case unary start symbol operand =>
    show Build.Takes before (if _ then _ else _) _
    split
    · apply Build.Takes.refuse
    · apply Build.Takes.refuse
  all_goals apply Build.Takes.refuse

/-- Building declared names takes the numbers of their walks. -/
theorem buildDeclared_takes (list : List Variable) : ∀ before : List NodeId,
    Build.Takes before (buildDeclared o list) fun names => before ++ numbers (names.flatMap Declared.walk) := by
  induction list with
  | nil =>
    intro before
    apply Build.Takes.pure
    simp
  | cons v vs ih =>
    intro before
    apply node
    intro info
    have hrest (first : Option Assignment) : Build.Takes
        (before ++ numbers (Declared.walk ⟨info, v.name, first⟩))
        (do
          let rest ← buildDeclared o vs
          pure (⟨info, v.name, first⟩ :: rest : List Declared))
        fun names => before ++ numbers (names.flatMap Declared.walk) := by
      apply Build.Takes.bind (ih _)
      intro rest
      apply Build.Takes.pure
      simp
    cases v.value with
    | none => simpa [Declared.walk] using hrest none
    | some t =>
      -- The first value is an assignment that is made up around it: that and its target take numbers as well.
      apply node
      intro assignInfo
      apply node
      intro nameInfo
      apply Build.Takes.bind (buildExpr_takes o t _)
      intro value
      have h := hrest (some ⟨assignInfo, .name nameInfo v.name, "=", value⟩)
      simpa [Declared.walk, Assignment.walk, Expr.walk, Expr.info] using h

/-- Building a declaration takes the numbers of its walk. -/
theorem buildVar_takes (start : Nat) (list : List Variable) :
    Build.Takes before (buildVar o start list) fun s => before ++ numbers s.walk := by
  apply node
  intro info
  apply Build.Takes.bind (buildDeclared_takes o list _)
  intro names
  apply Build.Takes.pure
  simp [Stmt.walk, Stmt.info]

/-- Building the first part of a `for` takes the numbers of its walk. -/
theorem buildHeader_takes (header : Header) :
    Build.Takes before (buildHeader o header) fun first => before ++ numbers (Stmt.walkOption first) := by
  cases header with
  | empty =>
    apply Build.Takes.pure
    simp [Stmt.walkOption]
  | declared list =>
    apply Build.Takes.bind (buildVar_takes o _ _ list)
    intro s
    apply Build.Takes.pure
    simp [Stmt.walkOption]
  | term t => apply Build.Takes.refuse

/-! ## Statements -/

mutual

/-- Building a statement takes the numbers of its walk. -/
theorem buildStmt_takes (top : Bool) : ∀ (c : Clause) (before : List NodeId),
    Build.Takes before (buildStmt o top c) fun s => before ++ numbers (Stmt.walkOption s)
  | .empty _, _ => .pure (by simp [Stmt.walkOption])
  | .term t, _ => by
    refine .bind (.semicolon o _) ?_
    intro _
    refine .bind (buildSimple_takes o _ t) ?_
    intro s
    exact .pure (by simp [Stmt.walkOption])
  | .var start list, _ => by
    refine .bind (.semicolon o _) ?_
    intro _
    refine .bind (buildVar_takes o _ start list) ?_
    intro s
    exact .pure (by simp [Stmt.walkOption])
  | .cond _ test body branch, _ => by
    apply node
    intro info
    refine .bind (buildExpr_takes o test _) ?_
    intro t
    refine .bind (buildBlock_takes "if" body _) ?_
    intro b
    refine .bind (buildBranch_takes branch _) ?_
    intro e
    exact .pure (by simp [Stmt.walkOption, Stmt.walk, Stmt.info])
  | .while _ test body, _ => by
    apply node
    intro info
    refine .bind (buildExpr_takes o test _) ?_
    intro t
    refine .bind (buildBlock_takes "while" body _) ?_
    intro b
    exact .pure (by simp [Stmt.walkOption, Stmt.walk, Stmt.info])
  | .for start header test update body, before => by
    apply node
    intro info
    apply Build.Takes.bind (buildHeader_takes o _ header)
    intro first
    cases test with
    | none => apply Build.Takes.refuse
    | some test =>
      apply Build.Takes.bind (buildExpr_takes o test _)
      intro t
      have hbody (u : Option Stmt) : Build.Takes
          (before ++ [info.id] ++ numbers (Stmt.walkOption first) ++ numbers t.walk ++ numbers (Stmt.walkOption u))
          (do
            let b ← buildBlock o "for" body
            pure (some (Stmt.for info first t u b)))
          fun s => before ++ numbers (Stmt.walkOption s) := by
        apply Build.Takes.bind (buildBlock_takes "for" body _)
        intro b
        apply Build.Takes.pure
        simp [Stmt.walkOption, Stmt.walk, Stmt.info]
      cases update with
      | none => simpa [Stmt.walkOption] using hbody none
      | some u =>
        apply Build.Takes.bind (buildSimple_takes o _ u)
        intro s
        exact hbody (some s)
  | .function start name params body, before => by
    show Build.Takes before (if _ then _ else _) _
    split
    · apply node
      intro info
      cases repeatedParam? [] params with
      | some p => apply Build.Takes.refuse
      | none =>
        apply Build.Takes.bind (buildStmts_takes false body _)
        intro b
        apply Build.Takes.pure
        simp [Stmt.walkOption, Stmt.walk, Stmt.info]
    · apply Build.Takes.refuse
  | .return _ value, before => by
    apply Build.Takes.bind (.semicolon o _)
    intro _
    apply node
    intro info
    cases value with
    | none =>
      apply Build.Takes.pure
      simp [Stmt.walkOption, Stmt.walk, Stmt.info]
    | some t =>
      apply Build.Takes.bind (buildExpr_takes o t _)
      intro e
      apply Build.Takes.pure
      simp [Stmt.walkOption, Stmt.walk, Stmt.info]
  | .block start _, _ => .refuse ..
  | .foreign kind start, _ => .refuse ..

/-- Building the other branch of a condition takes the numbers of its walk. -/
theorem buildBranch_takes : ∀ (c : Option Clause) (before : List NodeId),
    Build.Takes before (buildBranch o c) fun s => before ++ numbers (Stmt.walkOption s)
  | none, _ => .pure (by simp [Stmt.walkOption])
  | some c, before => by
    cases c
    case cond start test body branch =>
      -- An `else if` is two nodes, the branch and the conditional in it.
      apply node
      intro outer
      apply node
      intro info
      apply Build.Takes.bind (buildExpr_takes o test _)
      intro t
      apply Build.Takes.bind (buildBlock_takes "if" body _)
      intro b
      apply Build.Takes.bind (buildBranch_takes branch _)
      intro e
      apply Build.Takes.pure
      simp [Stmt.walkOption, Stmt.walk, Stmt.info]
    case block start body =>
      apply node
      intro info
      apply Build.Takes.bind (buildStmts_takes false body _)
      intro b
      apply Build.Takes.pure
      simp [Stmt.walkOption, Stmt.walk, Stmt.info]
    all_goals exact node fun _ => .refused ..

/-- Building a block takes the numbers of its walk. -/
theorem buildBlock_takes (keyword : String) : ∀ (c : Clause) (before : List NodeId),
    Build.Takes before (buildBlock o keyword c) fun body => before ++ numbers (Stmt.walkAll body)
  | .block _ body, _ => buildStmts_takes false body _
  | .empty _, _ | .term _, _ | .var _ _, _ | .cond _ _ _ _, _ | .while _ _ _, _ | .for _ _ _ _ _, _
  | .function _ _ _ _, _ | .return _ _, _ | .foreign _ _, _ => .refuse ..

/-- Building a body takes the numbers of its walk. -/
theorem buildStmts_takes (top : Bool) : ∀ (cs : List Clause) (before : List NodeId),
    Build.Takes before (buildStmts o top cs) fun body => before ++ numbers (Stmt.walkAll body)
  | [], _ => .pure (by simp [Stmt.walkAll])
  | c :: cs, _ => by
    refine .bind (buildStmt_takes top c _) ?_
    intro s
    refine .bind (buildStmts_takes top cs _) ?_
    intro rest
    exact .pure (by simp [Stmt.walkAll_append, Stmt.walkAll_toList])

end

/-- A program takes the number zero for itself, and its statements take the others. -/
theorem buildProgram_consecutive {clauses : List Clause} {program : Program}
    (h : buildProgram o clauses = .ok program) : Consecutive 0 (numbers program.walk) program.count := by
  unfold buildProgram at h
  cases hbuild : buildStmts o true clauses 1 with
  | error d =>
    rw [hbuild] at h
    cases h
  | ok result =>
    rw [hbuild] at h
    cases h
    have hroot : Consecutive 0 [0] 1 := (Consecutive.nil 0).concat
    exact (buildStmts_takes o true clauses [0]).of_ok 0 1 result.1 result.2 hroot hbuild

end Source

/-! ## The index -/

/-- A list without duplicates loses nothing if they are removed. -/
theorem eraseDups_eq_self {ids : List NodeId} (h : ids.Nodup) : ids.eraseDups = ids := by
  induction ids with
  | nil => rfl
  | cons id ids ih =>
    rw [List.nodup_cons] at h
    have hkept : ids.filter (fun other => !other == id) = ids := by
      rw [List.filter_eq_self]
      intro other hother
      have hne : other ≠ id := by
        rintro rfl
        exact h.1 hother
      simpa using hne
    rw [List.eraseDups_cons, hkept, ih h.2]

/-- If the numbers of nodes count from zero, the last node with a number stands at that place. -/
theorem find?_of_consecutive {nodes : List Node} {next : NodeId} (h : Consecutive 0 (numbers nodes) next)
    (id : Nat) : (nodes.reverse.find? fun n => n.info.id = id) = nodes[id]? := by
  -- The search starts at the end of the nodes, and so does the induction.
  induction nodes using List.reverseRecOn generalizing next with
  | nil => simp
  | append_singleton nodes n ih =>
    rw [numbers_append, numbers_cons, numbers_nil] at h
    obtain ⟨hlast, hnodes⟩ := h.of_concat
    have hplace : n.info.id = nodes.length := by simpa [numbers] using hlast
    rw [List.reverse_append, List.reverse_singleton, List.singleton_append, List.find?_cons, hplace, ih hnodes]
    by_cases hid : nodes.length = id
    · subst hid
      simp
    · simp only [hid, decide_false, List.getElem?_append]
      split
      case isTrue => rfl
      case isFalse hbehind => rw [List.getElem?_eq_none (by omega), List.getElem?_eq_none (by simp; omega)]

/-- A program that comes from a source which is not blank: it was read from the source's text, or it was built of
clauses, whatever they are. A blank source has a program of its own that no node was counted for. -/
inductive Program.Written (program : Program) : Prop where
  | read {maps : Source.MapDecoder} {file source : String} (hblank : Text.trim source ≠ "")
      (h : parseWith maps file source = .ok program)
  | built {o : Source.Origin} {clauses : List Source.Clause} (h : Source.buildProgram o clauses = .ok program)

/-- The nodes of a written program are numbered from 0 on in the order of the walk. -/
theorem Program.Written.consecutive {program : Program} (h : program.Written) :
    Consecutive 0 (numbers program.walk) program.count := by
  cases h with
  | read hblank h =>
    obtain ⟨o, clauses, hbuilt⟩ := Program.built_of_parse hblank h
    exact Source.buildProgram_consecutive o hbuilt
  | built h => exact Source.buildProgram_consecutive _ h

/-- Numbers follow the walk: the walk of a program from a source that is not blank meets the numbers from zero
below the program's count, in that order. So no two nodes share a number, the index has an entry for each of them
and for nothing else, and it leads from a number to the node that carries it. -/
theorem numbers_follow_walk {program : Program} (h : program.Written) :
    (program.walk.map fun n => n.info.id) = List.range program.count ∧
      program.ids.length = program.count ∧
      (∀ id, id ∈ program.ids ↔ id < program.count) ∧
      (∀ n ∈ program.walk, program.nodeAt? n.info.id = some n) ∧
      ∀ id, program.nodeAt? id = program.walk[id]? := by
  have hconsecutive := h.consecutive
  have hrange : numbers program.walk = List.range program.count := by
    rw [hconsecutive.ids_eq, hconsecutive.next_eq, Nat.zero_add, List.range_eq_range']
  have hids : program.ids = List.range program.count := by
    have hnodup : (numbers program.walk).Nodup := by
      rw [hrange]
      apply List.nodup_range
    calc program.ids = numbers program.walk := eraseDups_eq_self hnodup
      _ = List.range program.count := hrange
  have hindex (id : NodeId) : program.nodeAt? id = program.walk[id]? := find?_of_consecutive hconsecutive id
  refine ⟨hrange, by simp [hids], by simp [hids], ?_, hindex⟩
  intro n hn
  obtain ⟨id, hbound, hplace⟩ := List.mem_iff_getElem.mp hn
  have hnumber : n.info.id = id := by
    have h : (numbers program.walk)[id]? = (List.range program.count)[id]? := by rw [hrange]
    have hcount : id < program.count := by
      rw [hconsecutive.next_eq, numbers, List.length_map]
      omega
    simpa [numbers, hbound, hplace, hcount] using h
  rw [hindex, hnumber, List.getElem?_eq_getElem hbound, hplace]

/-- A source with several declared names in the header of a loop, a first value, a chain of branches and calls that
stand as statements. -/
def branchingSource : String :=
  "function f(n) \x7b\n  return n;\n\x7d\n" ++
    "for (var i = 0, j; i < 3; i++) \x7b\n  if (i == 0) \x7b\n    f(i);\n  \x7d " ++
    "else if (i == 1) \x7b\n    j = [i];\n  \x7d else \x7b\n    f(j[0]);\n  \x7d\n\x7d\n"

/-- The source has forty nodes, and the index finds each of them at its place in the walk. -/
theorem branching_numbers_follow_walk :
    ∃ program, parse "branching.js" branchingSource = .ok program ∧ program.Written ∧ program.count = 40 ∧
      (program.walk.map fun n => n.info.id) = List.range 40 ∧
      ∀ n ∈ program.walk, program.nodeAt? n.info.id = some n := by
  obtain ⟨program, hparse, hcount⟩ : ∃ program, parse "branching.js" branchingSource = .ok program ∧
      decide (program.count = 40) = true := exists_parse_of_any (by decide +kernel)
  have hblank : Text.trim branchingSource ≠ "" := by decide +kernel
  have hforty : program.count = 40 := of_decide_eq_true hcount
  have hwritten : program.Written := .read hblank hparse
  obtain ⟨hwalk, -, -, hfound, -⟩ := numbers_follow_walk hwritten
  rw [hforty] at hwalk
  exact ⟨program, hparse, hwritten, hforty, hwalk, hfound⟩

end Primer
