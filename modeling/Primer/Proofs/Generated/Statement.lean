import Primer.Proofs.Generated.Lines

/-!
# Generated statements

Whatever a generator chooses, the texts of the statements that it makes are those of lines of statements, and the loops
in them count: every loop has the next number, and its body is made with later numbers only.
-/

set_option autoImplicit false

namespace Primer.Generator

open Generate

variable {functions : List (String × Nat)} {lo : Nat}

/-- The counter of a loop has the number of the loop. -/
theorem counter_gives (letter : Char) :
    (counter (String.singleton letter)).Gives functions lo fun x hi => x = numbered letter lo ∧ hi = lo + 1 := by
  rintro g ⟨hg, rfl⟩
  exact ⟨⟨rfl, rfl⟩, hg⟩

/-- What is printed is the code of expressions. -/
theorem isCallText_print {texts : List String} (h : ∀ text ∈ texts, ∃ e : Expr, e.Written NoCounter text) :
    IsCallText NoCounter ("console.log(" ++ String.intercalate ", " texts ++ ")") := by
  have hconsole : (Expr.name .blank "console").Operand NoCounter memberStrength "console" :=
    operand_name ⟨by decide, by decide⟩ ⟨by decide, by decide⟩
  obtain ⟨es, hes⟩ := Expr.AllWritten.of_texts h
  have hlog : Source.IsMember "log" := ⟨by decide, by decide⟩
  exact ⟨_, es, (hconsole.member rfl hlog).call hes⟩

section Statements

variable {vars : List String} (hvars : AreVariables vars) (hfunctions : ∀ f ∈ functions, IsPlainName f.1)

include hvars hfunctions

/-- A generated other branch is one, if its body is lines. -/
theorem alternative_gives {level : Nat} {body : Generate String}
    (hbody : ∀ lo, body.Gives functions lo (IsLines (level + 1) lo)) :
    (alternative vars (indent level) body).Gives functions lo (IsBranch level lo) := by
  refine .andThen (choose_makes (by decide)) ?_
  intro c _
  split
  · refine .bind (hbody lo) ?_
    intro text hi htext
    exact .pure (.orElse htext rfl)
  · refine .andThen (condition_makes hvars hfunctions) ?_
    intro test htest
    refine .bind (hbody lo) ?_
    intro text hi htext
    exact .pure (.elseIf htest htext rfl)
  · exact .pure .none

/-- What is assigned is any expression. -/
theorem assignment_gives (level : Nat) : Generate.Gives (do
      let left ← target vars
      return indent level ++ left ++ " = " ++ (← expression vars depth) ++ ";\n") functions lo (IsLines level lo) := by
  refine .andThen (target_makes hvars) ?_
  intro left hleft
  refine .andThen (expression_makes hvars hfunctions depth) ?_
  intro value hvalue
  refine .pure ?_
  exact .store hleft hvalue.written (by simp only [String.append_assoc])

/-- Statements are made of lines, and of loops that count. The induction is on how many blocks may be nested; a body is
made after the counter of its loop, so it does not mention it. -/
theorem statement_gives (room level : Nat) : (statement vars level room).Gives functions lo (IsLines level lo) := by
  have hwhole := expression_makes hvars hfunctions depth
  induction room generalizing level lo with
  | zero =>
    have hname : ∀ text ∈ ["a"], ∃ e : Expr, e.Written NoCounter text := by
      refine List.forall_mem_singleton.mpr ⟨.name .blank "a", ?_⟩
      exact (operand_name ⟨by decide, by decide⟩ ⟨by decide, by decide⟩).toWritten
    exact .pure (.call (isCallText_print hname) (by rw [String.append_assoc]; rfl))
  | succ room ih =>
    refine .andThen (choose_makes (by decide)) ?_
    intro c _
    split
    -- Assignments, with `=` and with other operators.
    · exact assignment_gives hvars hfunctions level
    · exact assignment_gives hvars hfunctions level
    · have hassign : ∀ symbol ∈ ["+=", "-=", "*=", "/=", "%="], symbol ∈ Source.subsetAssign := by decide
      refine .andThen (target_makes hvars) ?_
      intro left hleft
      refine .andThen (pick_makes (by decide)) ?_
      intro symbol hsymbol
      refine .andThen hwhole ?_
      intro value hvalue
      refine .pure ?_
      exact .assign hleft (hassign symbol hsymbol) hvalue.written (by simp only [String.append_assoc])
    -- Steps up and down.
    · refine .andThen (target_makes hvars) ?_
      intro left hleft
      refine .andThen (pick_makes (by decide)) ?_
      intro symbol hsymbol
      refine .pure ?_
      exact .bump hleft hsymbol (by simp only [String.append_assoc])
    -- What is printed.
    · refine .andThen hwhole ?_
      intro value hvalue
      refine .pure ?_
      have hprint := isCallText_print (List.forall_mem_singleton.mpr hvalue.written)
      exact .call hprint (String.toList_inj.mp (by simp))
    -- Conditionals.
    · refine .andThen (condition_makes hvars hfunctions) ?_
      intro test htest
      refine .bind (ih (level + 1)) ?_
      intro body mid hbody
      refine .bind (alternative_gives hvars hfunctions fun lo => ih (level + 1)) ?_
      intro others hi hothers
      exact .pure (.cond htest hbody hothers rfl)
    -- Loops that count up and down.
    · refine .bind (counter_gives 'i') ?_
      intro x mid hx
      obtain ⟨hx, rfl⟩ := hx
      refine .andThen (choose_makes (by decide)) ?_
      intro bound hbound
      refine .bind (ih (level + 1)) ?_
      intro body hi hbody
      exact .pure (.countUp hx hbound hbody rfl)
    · refine .bind (counter_gives 'w') ?_
      intro x mid hx
      obtain ⟨hx, rfl⟩ := hx
      refine .andThen (choose_makes (by decide)) ?_
      intro bound hbound
      refine .bind (ih (level + 1)) ?_
      intro body hi hbody
      exact .pure (.countDown hx (Nat.le_succ_of_le hbound) hbody rfl)
    -- Calls, or elements of the array if there is nothing to call.
    · refine .get ?_
      intro g hg
      split
      case isTrue =>
        refine .andThen (digits_makes (by decide)) ?_
        intro index hindex
        refine .andThen hwhole ?_
        intro value hvalue
        refine .pure ?_
        obtain ⟨n, hn, rfl⟩ := hindex
        have helement : IsTargetText NoCounter _ := ⟨_, rfl, rfl, element_written (show n < 20 by omega)⟩
        exact .store helement hvalue.written (String.toList_inj.mp (by simp))
      case isFalse hsome =>
        have hfunction : functions ≠ [] := by
          rintro rfl
          exact hsome (by rw [hg]; rfl)
        refine .andThen (call_makes hvars hfunctions hfunction) ?_
        intro text htext
        exact .pure (.call htext rfl)
    -- Lengths of the array.
    · refine .andThen (digits_makes (by decide)) ?_
      intro length hlength
      refine .pure ?_
      obtain ⟨n, hn, rfl⟩ := hlength
      have hnumber := (operand_number (N := NoCounter) (isNumeral_small (show n < 20 by omega))).toWritten
      have hlength : IsTargetText NoCounter _ := ⟨_, rfl, rfl, length_written⟩
      exact .store hlength ⟨_, hnumber⟩ (String.toList_inj.mp (by simp))

end Statements

end Primer.Generator
