import Primer.Agreement.Generator

/-!
# What generators make

A part of a generator is described by what it makes whatever the choices are, given the functions and the number of
loops that have been made before (`Generate.Ensures`). Most parts leave the functions alone (`Generate.Gives`), and the
parts of expressions make no loops either (`Generate.Makes`). Each has one rule for every way to put parts together.
-/

set_option autoImplicit false

namespace Primer

variable {α β : Type}

/-- What holds after a part of a generator, if something holds before it. -/
def Generate.Ensures (m : Generate α) (I : Generator → Prop) (R : α → Generator → Prop) : Prop :=
  ∀ g, I g → R (m.run g).1 (m.run g).2

/-- A generator that has made some functions and `lo` loops. -/
structure Generator.Has (functions : List (String × Nat)) (lo : Nat) (g : Generator) : Prop where
  functions : g.functions = functions
  loops : g.loops = lo

/-- What is given after some functions and `lo` loops, and how many loops have been made then. -/
def Generate.Gives (m : Generate α) (functions : List (String × Nat)) (lo : Nat) (Q : α → Nat → Prop) : Prop :=
  m.Ensures (Generator.Has functions lo) fun a g => Q a g.loops ∧ g.functions = functions

/-- What is made after some functions, without making loops. -/
def Generate.Makes (m : Generate α) (functions : List (String × Nat)) (P : α → Prop) : Prop :=
  ∀ lo, m.Gives functions lo fun a hi => P a ∧ hi = lo

/-! ## Rules -/

namespace Generate

variable {m : Generate α} {f : α → Generate β} {functions : List (String × Nat)} {lo : Nat} {P : α → Prop}
  {P' : β → Prop} {Q Q' : α → Nat → Prop} {R : β → Generator → Prop}

/-- A value that meets the condition is given. -/
theorem Gives.pure {a : α} (h : Q a lo) : Gives (Pure.pure a) functions lo Q := by
  rintro g ⟨hg, rfl⟩
  exact ⟨h, hg⟩

/-- What is given meets every weaker condition. -/
theorem Gives.imp (hm : m.Gives functions lo Q) (hQ : ∀ a hi, Q a hi → Q' a hi) : m.Gives functions lo Q' :=
  fun g hg => ⟨hQ _ _ (hm g hg).1, (hm g hg).2⟩

/-- What comes next starts with the functions and the loops that have been made by then. -/
theorem Ensures.chain {I : Generator → Prop} {Q : α → Generator → Prop} (hm : m.Ensures I Q)
    (hf : ∀ a g, Q a g → (f a).Ensures (Generator.Has g.functions g.loops) R) : (m >>= f).Ensures I R :=
  fun g hg => hf _ _ (hm g hg) _ ⟨rfl, rfl⟩

/-- A sequence of steps ensures what its last one does. -/
theorem Ensures.bind (hm : m.Gives functions lo Q)
    (hf : ∀ a mid, Q a mid → (f a).Ensures (Generator.Has functions mid) R) :
    (m >>= f).Ensures (Generator.Has functions lo) R := by
  refine .chain hm ?_
  intro a g ha
  obtain ⟨ha, rfl⟩ := ha
  exact hf a g.loops ha

/-- Reading off the generator ensures what follows. -/
theorem Ensures.get {I : Generator → Prop} {f : Generator → Generate β} (hf : ∀ g, I g → (f g).Ensures I R) :
    (MonadState.get >>= f).Ensures I R := fun g hg => hf g hg g hg

/-- Changing the generator ensures what follows from the change. -/
theorem Ensures.modify {I J : Generator → Prop} {change : Generator → Generator} {f : PUnit → Generate β}
    (hchange : ∀ g, I g → J (change g)) (hf : (f ⟨⟩).Ensures J R) : (modify change >>= f).Ensures I R :=
  fun g hg => hf (change g) (hchange g hg)

/-- A step that makes something ensures what follows from it. -/
theorem Ensures.andThen (hm : m.Makes functions P)
    (hf : ∀ a, P a → (f a).Ensures (Generator.Has functions lo) R) :
    (m >>= f).Ensures (Generator.Has functions lo) R := by
  refine .bind (hm lo) ?_
  intro a mid ha
  obtain ⟨ha, rfl⟩ := ha
  exact hf a ha

/-- A sequence of steps gives what its last one does. -/
theorem Gives.bind {R : β → Nat → Prop} (hm : m.Gives functions lo Q)
    (hf : ∀ a mid, Q a mid → (f a).Gives functions mid R) : (m >>= f).Gives functions lo R := Ensures.bind hm hf

/-- A step that makes something gives what follows from it. -/
theorem Gives.andThen {R : β → Nat → Prop} (hm : m.Makes functions P)
    (hf : ∀ a, P a → (f a).Gives functions lo R) : (m >>= f).Gives functions lo R := Ensures.andThen hm hf

/-- Reading off the generator gives what follows. -/
theorem Gives.get {f : Generator → Generate β} {R : β → Nat → Prop}
    (hf : ∀ g, g.functions = functions → (f g).Gives functions lo R) : (MonadState.get >>= f).Gives functions lo R :=
  Ensures.get fun g hg => hf g hg.functions

/-- A value that meets the condition is made. -/
theorem Makes.pure {a : α} (h : P a) : Makes (Pure.pure a) functions P := fun _ => .pure ⟨h, rfl⟩

/-- What is made meets every weaker condition. -/
theorem Makes.imp {P' : α → Prop} (hm : m.Makes functions P) (hP : ∀ a, P a → P' a) : m.Makes functions P' :=
  fun lo => (hm lo).imp fun a _ ha => ⟨hP a ha.1, ha.2⟩

/-- A sequence of steps makes what its last one does. -/
theorem Makes.bind (hm : m.Makes functions P) (hf : ∀ a, P a → (f a).Makes functions P') :
    (m >>= f).Makes functions P' := fun lo => .andThen hm fun a ha => hf a ha lo

/-- Reading off the generator makes what follows. -/
theorem Makes.get {f : Generator → Generate β} (hf : ∀ g, g.functions = functions → (f g).Makes functions P') :
    (MonadState.get >>= f).Makes functions P' := fun lo => .get fun g hg => hf g hg lo

end Generate

/-! ## Choices -/

namespace Generator

open Generate

variable {functions : List (String × Nat)}

/-- A choice among some is one of them. -/
theorem choose_makes {n : Nat} (hn : 0 < n) : (choose n).Makes functions fun i => i < n := by
  rintro lo ⟨_ | ⟨c, rest⟩, loops, functions'⟩ ⟨rfl, rfl⟩
  · exact ⟨⟨hn, rfl⟩, rfl⟩
  · exact ⟨⟨Nat.mod_lt c hn, rfl⟩, rfl⟩

/-- A pick from a list is in the list. -/
theorem pick_makes {l : List String} (hl : l ≠ []) : (pick l).Makes functions fun x => x ∈ l := by
  refine .bind (choose_makes (List.length_pos_iff.mpr hl)) ?_
  intro i hi
  refine .pure ?_
  rw [List.getElem?_eq_getElem hi]
  exact List.getElem_mem hi

/-- The digits of a choice are those of a number among some. -/
theorem digits_makes {n : Nat} (hn : 0 < n) : (digits n).Makes functions fun text => ∃ i < n, text = toString i :=
  .bind (choose_makes hn) fun i hi => .pure ⟨i, hi, rfl⟩

/-! ## Several parts -/

/-- What several texts are like that are made one after the other, if each is like that and leaves what it needs. -/
theorem times_ensures {m : Generate String} {I : Generator → Prop} {Q : Nat → String → Nat → Prop}
    {S : Nat → List String → Nat → Prop}
    (hm : ∀ lo, m.Ensures (fun g => I g ∧ g.loops = lo) fun text g => Q lo text g.loops ∧ I g)
    (hnil : ∀ lo, S lo [] lo)
    (hcons : ∀ lo mid hi text texts, Q lo text mid → S mid texts hi → S lo (text :: texts) hi) (n lo : Nat) :
    (times n m).Ensures (fun g => I g ∧ g.loops = lo) fun texts g => S lo texts g.loops ∧ I g := by
  induction n generalizing lo with
  | zero =>
    rintro g ⟨hg, rfl⟩
    exact ⟨hnil g.loops, hg⟩
  | succ n ih =>
    intro g hg
    have hrun : (times (n + 1) m).run g =
        ((m.run g).1 :: ((times n m).run (m.run g).2).1, ((times n m).run (m.run g).2).2) := by
      show (List.mapM id (m :: List.replicate n m)).run g = _
      rw [List.mapM_cons]
      rfl
    obtain ⟨hfirst, hmid⟩ := hm lo g hg
    obtain ⟨hrest, hlast⟩ := ih _ (m.run g).2 ⟨hmid, rfl⟩
    rw [hrun]
    exact ⟨hcons _ _ _ _ _ hfirst hrest, hlast⟩

/-- Doing something several times gives what doing it step by step does. -/
theorem times_gives {m : Generate String} {Q : Nat → String → Nat → Prop} {S : Nat → List String → Nat → Prop}
    (hm : ∀ lo, m.Gives functions lo (Q lo)) (hnil : ∀ lo, S lo [] lo)
    (hcons : ∀ lo mid hi text texts, Q lo text mid → S mid texts hi → S lo (text :: texts) hi) (n lo : Nat) :
    (times n m).Gives functions lo (S lo) := fun g hg =>
  times_ensures (I := fun g => g.functions = functions) (fun lo g hg => hm lo g ⟨hg.1, hg.2⟩) hnil hcons n lo g
    ⟨hg.functions, hg.loops⟩

/-- Doing something several times makes texts that meet its condition. -/
theorem times_makes {m : Generate String} {P : String → Prop} (h : m.Makes functions P) (n : Nat) :
    (times n m).Makes functions fun texts => ∀ text ∈ texts, P text := by
  intro lo
  refine times_gives (Q := fun lo text hi => P text ∧ hi = lo) (S := fun lo texts hi => (∀ text ∈ texts, P text) ∧ hi = lo)
    h (fun _ => ⟨nofun, rfl⟩) ?_ n lo
  rintro lo _ _ text texts ⟨htext, rfl⟩ ⟨htexts, rfl⟩
  exact ⟨List.forall_mem_cons.mpr ⟨htext, htexts⟩, rfl⟩

end Generator

end Primer
