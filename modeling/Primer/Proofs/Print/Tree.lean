import Primer.Proofs.Print.Legal
import Primer.Proofs.Sound.Tree

/-!
# Trees that were read

`Expr.IsRead` and `Stmt.AllRead` say what is known of a tree that was read from a source, beyond that the engine can
run it: its literals and names can be scanned again, its literals have the values that they are written for, and its
statements are of the kinds that can be read where they stand. Every program that `parse` gives is such a tree
(`Program.allRead_of_parse`).
-/

set_option autoImplicit false

namespace Primer

open Source (IsNumeral IsQuotation IsIdentifier IsMember)

/-! ## What is read -/

mutual

/-- An expression as it can be read. -/
def Expr.IsRead : Expr → Prop
  | .number _ value literal => IsNumeral literal.toList ∧ value = Source.numberValue literal
  | .string _ value literal => IsQuotation literal.toList ∧ Source.stringValue literal = .ok value
  | .boolean .. | .null _ => True
  | .name _ text => IsIdentifier text
  | .member _ object property => object.IsRead ∧ IsMember property
  | .element _ base position => base.IsRead ∧ position.IsRead
  | .call _ callee arguments => callee.IsRead ∧ Expr.AllRead arguments
  | .array _ items => Expr.AllRead items
  | .binary _ left symbol right => symbol ∈ Source.subsetBinary ∧ left.IsRead ∧ right.IsRead
  | .unary _ symbol operand => symbol ∈ Source.subsetUnary ∧ operand.IsRead

/-- Several expressions as they can be read. -/
def Expr.AllRead : List Expr → Prop
  | [] => True
  | e :: es => e.IsRead ∧ Expr.AllRead es

end

/-- Whether an expression can be assigned to. -/
def Expr.isPlace : Expr → Bool
  | .name .. | .member .. | .element .. => true
  | _ => false

/-- An assignment as it can be read. -/
def Assignment.IsRead (a : Assignment) : Prop :=
  a.symbol ∈ Source.subsetAssign ∧ a.target.isPlace = true ∧ a.target.IsRead ∧ a.value.IsRead

/-- A declared name as it can be read: its first value is assigned to the name. -/
def Declared.IsRead (d : Declared) : Prop :=
  IsIdentifier d.name ∧ ∀ a ∈ d.first, (∃ i, a.target = .name i d.name) ∧ a.symbol = "=" ∧ a.value.IsRead

/-- A statement that declares variables. -/
def Stmt.isVar : Stmt → Bool
  | .var .. => true
  | _ => false

/-- A statement that is an expression of a source: an assignment, an increment or a call. -/
def Stmt.isSimple : Stmt → Bool
  | .assign .. | .bump .. | .call .. => true
  | _ => false

mutual

/-- A statement as it can be read, inside or outside of a function, and at the top of a program or below. -/
def Stmt.IsRead (inFunction top : Bool) : Stmt → Prop
  | .var _ names => names ≠ [] ∧ ∀ d ∈ names, d.IsRead
  | .assign a => a.IsRead
  | .bump _ target symbol => target.isPlace = true ∧ target.IsRead ∧ symbol ∈ ["++", "--"]
  | .call _ c => c.toExpr.IsRead
  | .cond _ test body branch =>
    test.IsRead ∧ Stmt.AllRead inFunction false body ∧ Stmt.IsReadBranch inFunction branch
  | .while _ test body => test.IsRead ∧ Stmt.AllRead inFunction false body
  | .for _ first test update body =>
    Stmt.IsReadPart Stmt.isVar first ∧ test.IsRead ∧ Stmt.IsReadPart Stmt.isSimple update ∧
      Stmt.AllRead inFunction false body
  | .function _ name params body =>
    top = true ∧ IsIdentifier name ∧ (∀ p ∈ params, IsIdentifier p) ∧ params.Nodup ∧ Stmt.AllRead true false body
  | .return _ value => inFunction = true ∧ ∀ e ∈ value, e.IsRead
  | .declared _ | .elseIf .. | .orElse .. => False

/-- A branch below a conditional as it can be read. -/
def Stmt.IsReadBranch (inFunction : Bool) : Option Stmt → Prop
  | none => True
  | some (.elseIf _ _ test body branch) =>
    test.IsRead ∧ Stmt.AllRead inFunction false body ∧ Stmt.IsReadBranch inFunction branch
  | some (.orElse _ body) => Stmt.AllRead inFunction false body
  | some _ => False

/-- A statement of some kinds in the header of a loop as it can be read. -/
def Stmt.IsReadPart (kinds : Stmt → Bool) : Option Stmt → Prop
  | none => True
  | some s => kinds s = true ∧ s.IsRead false false

/-- Several statements as they can be read. -/
def Stmt.AllRead (inFunction top : Bool) : List Stmt → Prop
  | [] => True
  | s :: rest => s.IsRead inFunction top ∧ Stmt.AllRead inFunction top rest

end

/-- Two bodies in a row are ones a reader can give if both are. -/
theorem Stmt.allRead_append {inFunction top : Bool} {body rest : List Stmt} (hbody : Stmt.AllRead inFunction top body)
    (hrest : Stmt.AllRead inFunction top rest) : Stmt.AllRead inFunction top (body ++ rest) := by
  induction body with
  | nil => exact hrest
  | cons s body ih => exact ⟨hbody.1, ih hbody.2⟩

/-! ## What is printed clearly -/

/-- Whether an operator compares by order. -/
def isRelational (symbol : String) : Bool := ["<", ">", "<=", ">="].contains symbol

/-- Whether an expression compares by order. -/
def Expr.isRelation : Expr → Bool
  | .binary _ _ symbol _ => isRelational symbol
  | _ => false

/-- Whether an expression starts with a given sign. -/
def Expr.isSigned (sign : String) : Expr → Bool
  | .unary _ symbol _ => symbol = sign && sign != "!"
  | _ => false

/-- Whether an expression is a number to which a point behind it would belong. -/
def Expr.isWholeNumber : Expr → Bool
  | .number _ _ literal => Source.isWhole literal.toList
  | _ => false

mutual

/-- Whether no part of an expression runs into its neighbours where parentheses are left out: no sign stands before
the same sign, no point behind a number without one, and no relation to the left of a relation, which would be read
as if it were grouped to the right. -/
def Expr.isClear : Expr → Bool
  | .member _ object _ => !object.isWholeNumber && object.isClear
  | .element _ base position => base.isClear && position.isClear
  | .call _ callee arguments => callee.isClear && Expr.allClear arguments
  | .array _ items => Expr.allClear items
  | .binary _ left symbol right => !(isRelational symbol && left.isRelation) && left.isClear && right.isClear
  | .unary _ symbol operand => !operand.isSigned symbol && operand.isClear
  | _ => true

/-- Whether this holds of several expressions. -/
def Expr.allClear : List Expr → Bool
  | [] => true
  | e :: es => e.isClear && Expr.allClear es

end

/-! ## What a source gives -/

namespace Source

open Build.Yields (after)

variable (o : Origin)

mutual

/-- From scanned tokens an expression is built that a reader can give. -/
theorem buildExpr_isRead : ∀ {t : Term}, t.Legal → (buildExpr o t).Yields Expr.IsRead
  | .number .., h => after fun _ => .pure h
  | .string .., h => after fun _ => .pure h
  | .boolean .., _ => after fun _ => .pure trivial
  | .null _, _ => after fun _ => .pure trivial
  | .name .., h => after fun _ => .pure h
  | .dot .., h => by
    apply after
    intro _
    refine .bind (buildExpr_isRead h.1) ?_
    intro _ hobject
    exact .pure ⟨hobject, h.2⟩
  | .bracket .., h => by
    apply after
    intro _
    refine .bind (buildExpr_isRead h.1) ?_
    intro _ hbase
    refine .bind (buildExpr_isRead h.2) ?_
    intro _ hindex
    exact .pure ⟨hbase, hindex⟩
  | .call .., h => by
    apply after
    intro _
    refine .bind (buildExpr_isRead h.1) ?_
    intro _ hf
    refine .bind (buildExprs_isRead h.2) ?_
    intro _ hargs
    exact .pure ⟨hf, hargs⟩
  | .array .., h => by
    apply after
    intro _
    exact .bind (buildExprs_isRead h) fun _ hitems => .pure hitems
  | .binary left symbol right, h => by
    unfold buildExpr
    split
    case isTrue hsymbol =>
      apply after
      intro _
      refine .bind (buildExpr_isRead h.1) ?_
      intro _ hl
      refine .bind (buildExpr_isRead h.2) ?_
      intro _ hr
      exact .pure ⟨List.contains_iff_mem.mp hsymbol, hl, hr⟩
    case isFalse => exact .refuse ..
  | .unary start symbol operand, h => by
    unfold buildExpr
    split
    · exact .refuse ..
    · split
      case isTrue hsymbol =>
        apply after
        intro _
        refine .bind (buildExpr_isRead h) ?_
        intro _ he
        exact .pure ⟨List.contains_iff_mem.mp hsymbol, he⟩
      case isFalse => exact .refuse ..
  | .bumped .., _ | .assign .., _ | .foreign .., _ => .refuse ..

/-- From scanned tokens expressions are built that a reader can give. -/
theorem buildExprs_isRead : ∀ {ts : List Term}, Term.AllLegal ts → (buildExprs o ts).Yields Expr.AllRead
  | [], _ => .pure trivial
  | _ :: _, h => by
    refine .bind (buildExpr_isRead h.1) ?_
    intro _ he
    exact .bind (buildExprs_isRead h.2) fun _ hes => .pure ⟨he, hes⟩

end

/-- A target that is built is a place that a reader can give. -/
theorem buildTarget_isRead {t : Term} (h : t.Legal) :
    (buildTarget o t).Yields fun e => e.isPlace = true ∧ e.IsRead := by
  unfold buildTarget
  split
  case isFalse => exact .refuse ..
  case isTrue htarget =>
    cases t with
    | name => exact after fun _ => .pure ⟨rfl, h⟩
    | dot =>
      apply after
      intro _
      refine .bind (buildExpr_isRead o h.1) ?_
      intro _ hobject
      exact .pure ⟨rfl, hobject, h.2⟩
    | bracket =>
      apply after
      intro _
      refine .bind (buildExpr_isRead o h.1) ?_
      intro _ hbase
      refine .bind (buildExpr_isRead o h.2) ?_
      intro _ hindex
      exact .pure ⟨rfl, hbase, hindex⟩
    | _ => cases htarget

/-- A simple statement that is built is one that a reader can give anywhere. -/
theorem buildSimple_isRead {t : Term} (h : t.Legal) :
    (buildSimple o t).Yields fun s => s.isSimple = true ∧ ∀ inFunction top, s.IsRead inFunction top := by
  cases t
  case assign left symbol right =>
    refine .bind (P := fun a => a.IsRead) ?_ fun _ ha => .pure ⟨rfl, fun _ _ => ha⟩
    unfold buildAssignment
    split
    case isTrue hsymbol =>
      apply after
      intro _
      refine .bind (buildTarget_isRead o h.1) ?_
      intro _ htarget
      refine .bind (buildExpr_isRead o h.2) ?_
      intro _ hvalue
      exact .pure ⟨List.contains_iff_mem.mp hsymbol, htarget.1, htarget.2, hvalue⟩
    case isFalse => exact .refuse ..
  case bumped operand symbol =>
    apply after
    intro _
    refine .bind (buildTarget_isRead o h.1) ?_
    intro _ htarget
    exact .pure ⟨rfl, fun _ _ => ⟨htarget.1, htarget.2, h.2⟩⟩
  case call callee args stop =>
    apply after
    intro _
    apply after
    intro _
    refine .bind (buildExpr_isRead o h.1) ?_
    intro _ hf
    refine .bind (buildExprs_isRead o h.2) ?_
    intro _ hargs
    exact .pure ⟨rfl, fun _ _ => ⟨hf, hargs⟩⟩
  case unary start symbol operand =>
    show Build.Yields (if _ then _ else _) _
    split
    · exact .refuse ..
    · exact .refuse ..
  all_goals exact .refuse ..

/-- The declared names that are built are as many as were read. -/
theorem buildDeclared_isRead {list : List Variable} (h : ∀ v ∈ list, v.Legal) :
    (buildDeclared o list).Yields fun names => names.length = list.length ∧ ∀ d ∈ names, d.IsRead := by
  induction list with
  | nil => exact .pure ⟨rfl, nofun⟩
  | cons v vs ih =>
    have hv : v.Legal := h v List.mem_cons_self
    apply after
    intro info
    have hrest (first : Option Assignment) (hfirst : Declared.IsRead ⟨info, v.name, first⟩) :
        Build.Yields (do
          let rest ← buildDeclared o vs
          pure (⟨info, v.name, first⟩ :: rest : List Declared)) fun names =>
          names.length = (v :: vs).length ∧ ∀ d ∈ names, d.IsRead := by
      refine .bind (ih fun w hw => h w (List.mem_cons_of_mem v hw)) ?_
      intro rest hrest
      refine .pure ⟨by simp [hrest.1], ?_⟩
      rintro d (_ | ⟨_, hd⟩)
      · exact hfirst
      · exact hrest.2 d hd
    have hvalue := hv.2
    cases hcase : v.value with
    | none => exact hrest none ⟨hv.1, nofun⟩
    | some t =>
      apply after
      intro _
      apply after
      intro nameInfo
      refine .bind (buildExpr_isRead o (hvalue t hcase)) ?_
      intro value hread
      refine hrest (some _) ⟨hv.1, ?_⟩
      rintro _ ⟨⟩
      exact ⟨⟨nameInfo, rfl⟩, rfl, hread⟩

/-- A declaration that is built is one that a reader can give anywhere. -/
theorem buildVar_isRead (start : Nat) {list : List Variable} (h : Variable.AllLegal list) :
    (buildVar o start list).Yields fun s => s.isVar = true ∧ ∀ inFunction top, s.IsRead inFunction top := by
  apply after
  intro _
  refine .bind (buildDeclared_isRead o h.2) ?_
  intro names hnames
  refine .pure ⟨rfl, ?_⟩
  intro _ _
  refine ⟨?_, hnames.2⟩
  rintro rfl
  exact h.1 (List.length_eq_zero_iff.mp hnames.1.symm)

/-- The first part of a `for` that is built is a declaration or missing. -/
theorem buildHeader_isRead {header : Header} (h : header.Legal) :
    (buildHeader o header).Yields fun first => Stmt.IsReadPart Stmt.isVar first := by
  cases header with
  | empty => exact .pure trivial
  | declared list =>
    refine .bind (buildVar_isRead o _ h) ?_
    intro s hs
    exact .pure ⟨hs.1, hs.2 false false⟩
  | term t => exact .refuse ..

/-- Parameters are refused if and only if a name stands twice. -/
theorem repeatedParam?_eq_none {seen : List String} {params : List Param} :
    repeatedParam? seen params = none ↔
      (params.map Param.name).Nodup ∧ ∀ p ∈ params, p.name ∉ seen := by
  induction params generalizing seen with
  | nil => simp [repeatedParam?]
  | cons p ps ih =>
    unfold repeatedParam?
    split
    case isTrue h =>
      have hseen : p.name ∈ seen := List.contains_iff_mem.mp h
      simp [hseen]
    case isFalse h =>
      have hseen : p.name ∉ seen := fun hmem => h (List.contains_iff_mem.mpr hmem)
      simp only [ih, List.map_cons, List.nodup_cons, List.mem_cons, forall_eq_or_imp, hseen, not_false_eq_true,
        true_and, not_or]
      constructor
      · rintro ⟨hnodup, hps⟩
        refine ⟨⟨?_, hnodup⟩, fun q hq => (hps q hq).2⟩
        intro hmem
        obtain ⟨q, hq, heq⟩ := List.mem_map.mp hmem
        exact (hps q hq).1 heq
      · rintro ⟨⟨hp, hnodup⟩, hps⟩
        exact ⟨hnodup, fun q hq => ⟨fun heq => hp (List.mem_map.mpr ⟨q, hq, heq⟩), hps q hq⟩⟩

/-- What a reader can give it can give as a part. -/
theorem isRead_of_some {inFunction top : Bool} {s : Stmt} (h : s.IsRead inFunction top) :
    ∀ s' ∈ some s, s'.IsRead inFunction top := by
  rintro _ ⟨⟩
  exact h

mutual

/-- A statement that is built is one that a reader can give. -/
theorem buildStmt_isRead (inFunction top : Bool) :
    ∀ {c : Clause}, c.Legal inFunction → (buildStmt o top c).Yields fun s => ∀ s' ∈ s, s'.IsRead inFunction top
  | .empty _, _ => .pure nofun
  | .term _, h => by
    apply after
    intro _
    refine .bind (buildSimple_isRead o h) ?_
    intro s hs
    exact .pure (isRead_of_some (hs.2 inFunction top))
  | .var start _, h => by
    apply after
    intro _
    refine .bind (buildVar_isRead o start h) ?_
    intro s hs
    exact .pure (isRead_of_some (hs.2 inFunction top))
  | .cond .., h => by
    apply after
    intro _
    refine .bind (buildExpr_isRead o h.1) ?_
    intro _ ht
    refine .bind (buildBlock_isRead inFunction "if" h.2.1) ?_
    intro _ hb
    refine .bind (buildBranch_isRead inFunction h.2.2) ?_
    intro _ he
    exact .pure (isRead_of_some ⟨ht, hb, he⟩)
  | .while .., h => by
    apply after
    intro _
    refine .bind (buildExpr_isRead o h.1) ?_
    intro _ ht
    refine .bind (buildBlock_isRead inFunction "while" h.2) ?_
    intro _ hb
    exact .pure (isRead_of_some ⟨ht, hb⟩)
  | .for start header test update body, ⟨hheader, htest, hupdate, hbody⟩ => by
    apply after
    intro info
    refine .bind (buildHeader_isRead o hheader) ?_
    intro first hfirst
    cases test with
    | none => exact .refuse ..
    | some test =>
      refine .bind (buildExpr_isRead o (htest test rfl)) ?_
      intro t ht
      have hrest (u : Option Stmt) (hu : Stmt.IsReadPart Stmt.isSimple u) :
          Build.Yields (do
            let b ← buildBlock o "for" body
            pure (some (Stmt.for info first t u b))) fun s => ∀ s' ∈ s, s'.IsRead inFunction top :=
        .bind (buildBlock_isRead inFunction "for" hbody) fun _ hb => .pure (isRead_of_some ⟨hfirst, ht, hu, hb⟩)
      cases update with
      | none => exact hrest none trivial
      | some u =>
        refine .bind (buildSimple_isRead o (hupdate u rfl)) ?_
        intro s hs
        exact hrest (some s) ⟨hs.1, hs.2 false false⟩
  | .function start name params body, ⟨hname, hparams, hbody⟩ => by
    show Build.Yields (if _ then _ else _) _
    split
    case isFalse => exact .refuse ..
    case isTrue htop =>
      apply after
      intro info
      cases hrepeated : repeatedParam? [] params with
      | some p => exact .refuse ..
      | none =>
        refine .bind (buildStmts_isRead true false hbody) ?_
        intro b hb
        refine .pure (isRead_of_some ?_)
        refine ⟨htop, hname, fun p hp => ?_, (repeatedParam?_eq_none.mp hrepeated).1, hb⟩
        obtain ⟨q, hq, rfl⟩ := List.mem_map.mp hp
        exact hparams q hq
  | .return _ value, ⟨hfunction, hvalue⟩ => by
    apply after
    intro _
    apply after
    intro info
    cases value with
    | none => exact .pure (isRead_of_some ⟨hfunction, nofun⟩)
    | some t =>
      refine .bind (buildExpr_isRead o (hvalue t rfl)) ?_
      intro e he
      refine .pure (isRead_of_some ⟨hfunction, ?_⟩)
      rintro _ ⟨⟩
      exact he
  | .block start _, _ => .refuse ..
  | .foreign kind start, _ => .refuse ..

/-- The other branch of a condition that is built is one that a reader can give. -/
theorem buildBranch_isRead (inFunction : Bool) :
    ∀ {c : Option Clause}, Clause.LegalIn inFunction c → (buildBranch o c).Yields (Stmt.IsReadBranch inFunction)
  | none, _ => .pure trivial
  | some c, h => by
    cases c
    case cond start test body branch =>
      apply after
      intro _
      apply after
      intro _
      refine .bind (buildExpr_isRead o h.1) ?_
      intro _ ht
      refine .bind (buildBlock_isRead inFunction "if" h.2.1) ?_
      intro _ hb
      refine .bind (buildBranch_isRead inFunction h.2.2) ?_
      intro _ he
      exact .pure ⟨ht, hb, he⟩
    case block start body =>
      apply after
      intro _
      refine .bind (buildStmts_isRead inFunction false h) ?_
      intro _ hb
      exact .pure hb
    all_goals exact after fun _ => .bind (P := fun _ => False) (.refuse ..) fun _ h => h.elim

/-- A block that is built is a body that a reader can give. -/
theorem buildBlock_isRead (inFunction : Bool) (keyword : String) :
    ∀ {c : Clause}, c.Legal inFunction → (buildBlock o keyword c).Yields (Stmt.AllRead inFunction false)
  | .block _ _, h => buildStmts_isRead inFunction false h
  | .empty _, _ | .term _, _ | .var _ _, _ | .cond _ _ _ _, _ | .while _ _ _, _ | .for _ _ _ _ _, _
  | .function _ _ _ _, _ | .return _ _, _ | .foreign _ _, _ => .refuse ..

/-- A body that is built is one that a reader can give. -/
theorem buildStmts_isRead (inFunction top : Bool) :
    ∀ {cs : List Clause}, Clause.AllLegal inFunction cs → (buildStmts o top cs).Yields (Stmt.AllRead inFunction top)
  | [], _ => .pure trivial
  | _ :: _, h => by
    refine .bind (buildStmt_isRead inFunction top h.1) ?_
    intro s hs
    refine .bind (buildStmts_isRead inFunction top h.2) ?_
    intro rest hrest
    exact .pure (by cases s with | none => exact hrest | some s => exact ⟨hs s rfl, hrest⟩)

end

end Source

/-- A program that is built of a source is made of statements as they can be read. -/
theorem Source.allRead_of_readProgram {o : Source.Origin} {program : Program}
    (h : Source.readProgram o = .ok program) : Stmt.AllRead false true program.body := by
  unfold Source.readProgram at h
  cases hread : Source.readSource o.source with
  | error m =>
    rw [hread] at h
    cases h
  | ok clauses =>
    rw [hread] at h
    have hlegal := (Source.readSource_legal _).of_ok clauses hread
    simp only [Source.buildProgram] at h
    cases hbuild : Source.buildStmts o true clauses 1 with
    | error d =>
      rw [hbuild] at h
      cases h
    | ok result =>
      rw [hbuild] at h
      cases h
      exact (Source.buildStmts_isRead _ false true hlegal).of_ok 1 result.1 result.2 hbuild

/-- A program that was read from a text is made of statements as they can be read. -/
theorem Program.allRead_of_parse {maps : Source.MapDecoder} {path source : String} {program : Program}
    (h : parseWith maps path source = .ok program) : Stmt.AllRead false true program.body := by
  unfold parseWith at h
  split at h
  case isTrue =>
    cases h
    trivial
  case isFalse =>
    dsimp only at h
    split at h
    · cases h
    · exact Source.allRead_of_readProgram h

end Primer
