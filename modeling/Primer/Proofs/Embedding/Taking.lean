import Mathlib.Data.List.Forall2
import Primer.Embedding.Hosts

/-!
# What is taken from arrays

The elements of an array are turned into native values one by one. Either all of them are, or the first one that is not
says why.
-/

set_option autoImplicit false

namespace Primer

variable {α β ε : Type} {f : α → Except ε β} {l : List α} {r : List β} {e : ε}

/-- A list is converted exactly when each of its entries is. -/
theorem mapM_eq_ok_iff : l.mapM f = .ok r ↔ List.Forall₂ (fun a b => f a = .ok b) l r := by
  induction l generalizing r with
  | nil => simp [pure, Except.pure, eq_comm]
  | cons a l ih =>
    rw [List.mapM_cons, List.forall₂_cons_left_iff]
    cases hf : f a with
    | error e => simp [bind, Except.bind]
    | ok b =>
      cases hl : l.mapM f with
      | error e => simp [bind, Except.bind, ← ih, hl]
      | ok r' => simp [bind, Except.bind, pure, Except.pure, ← ih, hl, eq_comm]

/-- Converting a list fails with the first entry that fails. -/
theorem mapM_eq_error_iff : l.mapM f = .error e ↔
    ∃ before a after, l = before ++ a :: after ∧ (∀ b ∈ before, ∃ c, f b = .ok c) ∧ f a = .error e := by
  induction l with
  | nil => simp [pure, Except.pure]
  | cons a l ih =>
    rw [List.mapM_cons]
    cases hf : f a with
    | error e' =>
      simp only [bind, Except.bind, Except.error.injEq]
      constructor
      · rintro rfl
        exact ⟨[], a, l, rfl, nofun, hf⟩
      · rintro ⟨before, b, after, hl, hbefore, hb⟩
        cases before with
        | nil =>
          cases hl
          exact Except.error.inj (hf.symm.trans hb)
        | cons d before =>
          cases hl
          obtain ⟨c, hc⟩ := hbefore a List.mem_cons_self
          cases hf.symm.trans hc
    | ok b =>
      have hiff : (Except.ok b >>= fun r => l.mapM f >>= fun rs => pure (r :: rs)) = .error e ↔
          l.mapM f = .error e := by
        cases l.mapM f <;> simp [bind, Except.bind, pure, Except.pure]
      rw [hiff, ih]
      constructor
      · rintro ⟨before, d, after, rfl, hbefore, hd⟩
        exact ⟨a :: before, d, after, rfl, List.forall_mem_cons.mpr ⟨⟨b, hf⟩, hbefore⟩, hd⟩
      · rintro ⟨before, d, after, hl, hbefore, hd⟩
        cases before with
        | nil =>
          cases hl
          cases hf.symm.trans hd
        | cons _ before =>
          cases hl
          exact ⟨before, d, after, rfl, (List.forall_mem_cons.mp hbefore).2, hd⟩

/-- Corresponding lists have corresponding entries. -/
theorem forall₂_getElem? {R : α → β → Prop} {i : Nat} {a : α} {b : β} (h : List.Forall₂ R l r) (ha : l[i]? = some a)
    (hb : r[i]? = some b) : R a b := by
  obtain ⟨hi, rfl⟩ := List.getElem?_eq_some_iff.mp ha
  obtain ⟨hi', rfl⟩ := List.getElem?_eq_some_iff.mp hb
  exact h.get hi hi'

/-- What is made of each element is a function of the element. -/
theorem exists_map_of_forall₂ [Inhabited β] (h : List.Forall₂ (fun a b => f a = .ok b) l r) :
    ∃ g : α → β, (∀ a ∈ l, f a = .ok (g a)) ∧ r = l.map g := by
  refine ⟨fun a => (f a).toOption.getD default, ?_⟩
  induction h with
  | nil => simp
  | @cons a b _ _ hab _ ih =>
    have hb : (f a).toOption.getD default = b := by rw [hab, Except.toOption, Option.getD_some]
    rw [List.map_cons, hb, ← ih.2, List.forall_mem_cons]
    exact ⟨⟨hab.trans (congrArg _ hb.symm), ih.1⟩, rfl⟩

variable {g : α → Except ε Native} {n : Native}

/-- A native list is made exactly when each of its items is. -/
theorem listed_eq_ok_iff : (do let items ← l.mapM g; .ok (Native.list items)) = .ok n ↔
    ∃ items, List.Forall₂ (fun a item => g a = .ok item) l items ∧ n = .list items := by
  simp only [← mapM_eq_ok_iff]
  cases l.mapM g <;> simp [bind, Except.bind, eq_comm]

/-- Making a native list fails with the first item that fails. -/
theorem listed_eq_error_iff : (do let items ← l.mapM g; .ok (Native.list items)) = .error e ↔
    ∃ before a after, l = before ++ a :: after ∧ (∀ b ∈ before, ∃ item, g b = .ok item) ∧ g a = .error e := by
  rw [← mapM_eq_error_iff]
  cases l.mapM g <;> simp [bind, Except.bind]

namespace Memory

variable {m : Memory} {v : Value} {t : NativeType}

/-- What is taken as a list is an array whose elements are all taken. -/
theorem take_list_eq_ok_iff : m.take (.list t) v = .ok n ↔
    ∃ a items, v = .array a ∧ List.Forall₂ (fun e item => m.take t e = .ok item) (m.values a) items ∧
      n = .list items := by
  cases v
  case array a =>
    have h : m.take (.list t) (.array a) = .ok n ↔ _ := listed_eq_ok_iff
    rw [h]
    simp
  all_goals simp [take, mismatch]

end Memory

end Primer
