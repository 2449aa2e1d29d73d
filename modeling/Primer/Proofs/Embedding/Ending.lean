import Mathlib.Logic.Relation
import Mathlib.Tactic.Choose
import Primer.Proofs.Array.Text
import Primer.Proofs.Embedding.Taking

/-!
# Arrays that are turned into lists

Where anything is taken, an array becomes the list of what its elements become, and nothing keeps an array from being
entered while it is being turned. What a value becomes is said by an inductive relation without a word on how many steps
it takes (`Memory.Becomes`): a native value, or the message that refuses the first element that has none. A value for
which there is neither is turned forever.

This is so exactly if an array is come by that leads to itself (`taking_ends_unless_cyclic`). An array leads to those of
its elements that are looked at (`Memory.Opens`); an element behind one that is refused is not, so an array may well lie
in itself there. `Memory.takeAny` tells such a value by its depth: an array that is entered while as many as there are
lie around it has been entered before (`Memory.leadsToCycle_of_endless`).
-/

set_option autoImplicit false

namespace Primer

open Relation

/-- The native counterpart of a value that has one of its own. -/
def Value.ownNative? : Value → Option Native
  | .number x => some (.double x)
  | .string s => some (.string s)
  | .boolean b => some (.boolean b)
  | .null | .undefined => some .nothing
  | _ => none

namespace Memory

/-- What a value becomes where anything is taken: a native value, or a message that refuses it. -/
inductive Becomes (m : Memory) : Value → Except String Native → Prop where
  | own {v : Value} {n : Native} (h : v.ownNative? = some n) : Becomes m v (.ok n)
  | refused {v : Value} (hown : v.ownNative? = none) (harray : ∀ a, v ≠ .array a) :
    Becomes m v (.error ("<var>" ++ m.describe v ++ "</var> cannot be passed to Go"))
  | array {a : ArrayRef} {native : Value → Native} (h : ∀ e ∈ m.values a, Becomes m e (.ok (native e))) :
    Becomes m (.array a) (.ok (.list ((m.values a).map native)))
  | stopped {a : ArrayRef} {before after : List Value} {e : Value} {message : String} {native : Value → Native}
    (hvalues : m.values a = before ++ e :: after) (hbefore : ∀ b ∈ before, Becomes m b (.ok (native b)))
    (he : Becomes m e (.error message)) : Becomes m (.array a) (.error message)

/-- A value is an array of which an element is looked at: those in front of it become native values. -/
inductive Opens (m : Memory) : Value → Value → Prop where
  | element {a : ArrayRef} {before after : List Value} {e : Value} (hvalues : m.values a = before ++ e :: after)
    (hbefore : ∀ b ∈ before, ∃ n, m.Becomes b (.ok n)) : Opens m (.array a) e

/-- An array that a value leads to, or the value itself, leads to itself. -/
def LeadsToCycle (m : Memory) (v : Value) : Prop :=
  ∃ a, ReflTransGen m.Opens v (.array a) ∧ TransGen m.Opens (.array a) (.array a)

variable {m : Memory} {v w : Value} {r r' : Except String Native} {n : Native} {message : String} {a : ArrayRef}

/-! ## What a value becomes -/

/-- What stands between two parts of a list is in it. -/
theorem mem_of_split {α : Type} {l before after : List α} {x : α} (h : l = before ++ x :: after) : x ∈ l := by
  rw [h]
  exact List.mem_append_cons_self

/-- Of two elements of a list one stands in front of the other, unless they are the same. -/
theorem same_or_mem_before {α : Type} {before before' after after' : List α} {x y : α}
    (h : before ++ x :: after = before' ++ y :: after') : x = y ∨ x ∈ before' ∨ y ∈ before := by
  rcases List.append_eq_append_iff.mp h with ⟨between, rfl, hrest⟩ | ⟨between, rfl, hrest⟩
  · cases between with
    | nil => exact .inl (List.cons.inj hrest).1
    | cons _ between =>
      rw [(List.cons.inj hrest).1]
      simp
  · cases between with
    | nil => exact .inl (List.cons.inj hrest).1.symm
    | cons _ between =>
      rw [(List.cons.inj hrest).1]
      simp

/-- A value becomes one thing at most. -/
theorem Becomes.unique (h : m.Becomes v r) (h' : m.Becomes v r') : r = r' := by
  induction h generalizing r' with
  | own h =>
    cases h' with
    | own h' => rw [Option.some.inj (h.symm.trans h')]
    | refused hown => cases h.symm.trans hown
    | array | stopped => cases h
  | refused hown harray =>
    cases h' with
    | own h' => cases hown.symm.trans h'
    | refused => rfl
    | array | stopped => exact absurd rfl (harray _)
  | @array a native _ ih =>
    cases h' with
    | own h' => cases h'
    | refused _ harray => exact absurd rfl (harray _)
    | array h' =>
      congr 2
      apply List.map_congr_left
      intro e he
      exact Except.ok.inj (ih e he (h' e he))
    | stopped hvalues hbefore he =>
      cases ih _ (mem_of_split hvalues) he
  | @stopped a before after e message native hvalues hbefore he ihbefore ihe =>
    cases h' with
    | own h' => cases h'
    | refused _ harray => exact absurd rfl (harray _)
    | array h' => cases ihe (h' e (mem_of_split hvalues))
    -- The first element that is refused is the same one in both, since those before it are not.
    | stopped hvalues' hbefore' he' =>
      rcases same_or_mem_before (hvalues.symm.trans hvalues') with rfl | hmem | hmem
      · exact ihe he'
      · cases ihe (hbefore' e hmem)
      · cases ihbefore _ hmem he'

/-- A value that leads to a cycle is an array, and one of the elements that are looked at leads to it too. -/
theorem LeadsToCycle.opens (h : m.LeadsToCycle v) : ∃ w, m.Opens v w ∧ m.LeadsToCycle w := by
  obtain ⟨a, hreach, hcycle⟩ := h
  rcases hreach.cases_head with rfl | ⟨w, hw, hreach⟩
  · obtain ⟨w, hw, hback⟩ := TransGen.head'_iff.mp hcycle
    exact ⟨w, hw, a, hback, hcycle⟩
  · exact ⟨w, hw, a, hreach, hcycle⟩

/-- What becomes something does not lead to a cycle. -/
theorem Becomes.not_leadsToCycle (h : m.Becomes v r) : ¬m.LeadsToCycle v := by
  intro hcycle
  induction h with
  | own hown =>
    obtain ⟨w, hw, -⟩ := hcycle.opens
    cases hw
    cases hown
  | refused _ harray =>
    obtain ⟨w, hw, -⟩ := hcycle.opens
    cases hw
    exact harray _ rfl
  | array _ ih =>
    obtain ⟨w, ⟨hvalues, -⟩, hcycle⟩ := hcycle.opens
    exact ih w (mem_of_split hvalues) hcycle
  | stopped hvalues _ he ihbefore ihe =>
    obtain ⟨w, ⟨hvalues', hbefore'⟩, hcycle⟩ := hcycle.opens
    rcases same_or_mem_before (hvalues.symm.trans hvalues') with rfl | hmem | hmem
    · exact ihe hcycle
    · obtain ⟨n, hn⟩ := hbefore' _ hmem
      cases hn.unique he
    · exact ihbefore w hmem hcycle

/-! ## What is computed -/

/-- A value with a native counterpart is taken as that. -/
theorem takePlain_own (depth : Nat) (h : v.ownNative? = some n) : m.takePlain depth v = .ok n := by
  cases v <;> cases h <;> cases depth <;> rfl

/-- A value without a native counterpart is refused unless it is an array. -/
theorem takePlain_refused (depth : Nat) (hown : v.ownNative? = none) (harray : ∀ a, v ≠ .array a) :
    m.takePlain depth v = .error (.refused ("<var>" ++ m.describe v ++ "</var> cannot be passed to Go")) := by
  cases v
  case array a => exact absurd rfl (harray a)
  case number | string | boolean | null | undefined => cases hown
  all_goals cases depth <;> rfl

/-- A refusal has one text. -/
theorem mapError_refused_inj (h : r.mapError TakeFailure.refused = r'.mapError .refused) : r = r' := by
  cases r <;> cases r' <;> cases h <;> rfl

/-- A value is turned into something or refused, or the depth is used up. -/
theorem takePlain_cases (m : Memory) (depth : Nat) (v : Value) :
    (∃ r : Except String Native, m.takePlain depth v = r.mapError .refused) ∨
      m.takePlain depth v = .error .endless := by
  cases m.takePlain depth v with
  | ok n => exact .inl ⟨.ok n, rfl⟩
  | error e =>
    cases e with
    | refused message => exact .inl ⟨.error message, rfl⟩
    | endless => exact .inr rfl

/-- If what is computed is something that the value becomes, then it is all that the value becomes. -/
theorem Becomes.iff_computed {depth : Nat} (h : m.Becomes v r')
    (hcomputed : m.takePlain depth v = r'.mapError .refused) :
    m.Becomes v r ↔ m.takePlain depth v = r.mapError .refused := by
  rw [hcomputed]
  constructor
  · intro h'
    rw [h.unique h']
  · intro hsame
    rw [← mapError_refused_inj hsame]
    exact h

/-- A value that is no array becomes what it is turned into at any depth. -/
theorem becomes_iff_of_not_array (depth : Nat) (harray : ∀ a, v ≠ .array a) :
    m.Becomes v r ↔ m.takePlain depth v = r.mapError .refused := by
  cases hown : v.ownNative? with
  | some n => exact (Becomes.own hown).iff_computed (takePlain_own depth hown)
  | none => exact (Becomes.refused hown harray).iff_computed (takePlain_refused depth hown harray)

/-- What is computed within a depth is what the value becomes. -/
theorem becomes_of_takePlain (depth : Nat) (h : m.takePlain depth v = r.mapError .refused) : m.Becomes v r := by
  induction depth generalizing v r with
  | zero =>
    by_cases harray : ∃ a, v = .array a
    · obtain ⟨a, rfl⟩ := harray
      cases r <;> cases h
    · exact (becomes_iff_of_not_array 0 (not_exists.mp harray)).mpr h
  | succ depth ih =>
    by_cases harray : ∃ a, v = .array a
    · obtain ⟨a, rfl⟩ := harray
      cases r with
      | ok n =>
        obtain ⟨items, hitems, rfl⟩ := listed_eq_ok_iff.mp h
        obtain ⟨native, hnative, rfl⟩ := exists_map_of_forall₂ hitems
        apply Becomes.array
        intro e he
        exact ih (hnative e he)
      | error message =>
        obtain ⟨before, e, after, hvalues, hbefore, he⟩ := listed_eq_error_iff.mp h
        choose! native hnative using hbefore
        apply Becomes.stopped hvalues
        · intro b hb
          exact ih (hnative b hb)
        · exact ih he
    · exact (becomes_iff_of_not_array _ (not_exists.mp harray)).mpr h

/-- A value that is turned beyond the depth leads to a cycle. The path holds the arrays around the value: none of them
twice, and each of them leads to it. -/
theorem leadsToCycle_of_endless (depth : Nat) {path : List ArrayRef} (hnodup : path.Nodup)
    (hlt : ∀ a ∈ path, a < m.arrays.size) (hleads : ∀ a ∈ path, TransGen m.Opens (.array a) v)
    (hdepth : m.arrays.size + 1 ≤ depth + path.length) (h : m.takePlain depth v = .error .endless) :
    m.LeadsToCycle v := by
  induction depth generalizing v path with
  | zero =>
    have hlength := length_le_of_nodup_of_lt hnodup hlt
    omega
  | succ depth ih =>
    cases v
    case array a =>
      -- Without a repetition the path gets longer, and it cannot be longer than there are arrays.
      by_cases hseen : a ∈ path
      · exact ⟨a, .refl, hleads a hseen⟩
      · obtain ⟨before, e, after, hvalues, hbefore, he⟩ := listed_eq_error_iff.mp h
        have hopens : m.Opens (.array a) e := by
          refine .element hvalues ?_
          intro b hb
          obtain ⟨n, hn⟩ := hbefore b hb
          exact ⟨n, becomes_of_takePlain (r := .ok n) depth hn⟩
        have hthere : a < m.arrays.size := lt_of_mem_values (mem_of_split hvalues)
        have hleads' : ∀ b ∈ a :: path, TransGen m.Opens (.array b) e :=
          List.forall_mem_cons.mpr ⟨.single hopens, fun b hb => (hleads b hb).tail hopens⟩
        have hlonger : m.arrays.size + 1 ≤ depth + (a :: path).length := by
          rw [List.length_cons]
          omega
        obtain ⟨b, hreach, hcycle⟩ := ih (List.nodup_cons.mpr ⟨hseen, hnodup⟩) (List.forall_mem_cons.mpr ⟨hthere, hlt⟩)
          hleads' hlonger he
        exact ⟨b, hreach.head hopens, hcycle⟩
    all_goals cases h

/-- At a depth beyond the number of arrays, what is computed is what the value becomes. -/
theorem becomes_iff {depth : Nat} (hdepth : m.arrays.size + 1 ≤ depth) :
    m.Becomes v r ↔ m.takePlain depth v = r.mapError .refused := by
  rcases m.takePlain_cases depth v with ⟨r', hcomputed⟩ | hendless
  · exact (becomes_of_takePlain depth hcomputed).iff_computed hcomputed
  · have hcycle := leadsToCycle_of_endless depth List.nodup_nil nofun nofun (by simpa using hdepth) hendless
    refine iff_of_false (fun h => h.not_leadsToCycle hcycle) ?_
    rw [hendless]
    cases r <;> exact nofun

/-- Either a value becomes something, or it is turned forever. -/
theorem exists_becomes_iff {depth : Nat} (hdepth : m.arrays.size + 1 ≤ depth) :
    (∃ r, m.Becomes v r) ↔ m.takePlain depth v ≠ .error .endless := by
  simp only [becomes_iff hdepth]
  constructor
  · rintro ⟨r, hr⟩ hendless
    rw [hendless] at hr
    cases r <;> cases hr
  · exact (m.takePlain_cases depth v).resolve_right

/-- Where a list of anything is wanted, an array is turned in the same way. -/
theorem take_list_any (m : Memory) (a : ArrayRef) : m.take (.list .any) (.array a) = m.take .any (.array a) := by
  have hlist : m.take (.list .any) (.array a) = m.takePlain (m.arrays.size + 2) (.array a) := rfl
  have hany : m.take .any (.array a) = m.takePlain (m.arrays.size + 1) (.array a) := rfl
  rw [hlist, hany]
  have hdepth : m.arrays.size + 1 ≤ m.arrays.size + 2 := Nat.le_succ _
  by_cases hends : ∃ r, m.Becomes (.array a) r
  · obtain ⟨r, hr⟩ := hends
    rw [(becomes_iff hdepth).mp hr, (becomes_iff le_rfl).mp hr]
  · have hlist := mt (exists_becomes_iff hdepth).mpr hends
    have hany := mt (exists_becomes_iff le_rfl).mpr hends
    rw [not_not.mp hlist, not_not.mp hany]

/-- A value that leads to a cycle comes by an array that lies in itself. -/
theorem LeadsToCycle.inItself (h : m.LeadsToCycle v) : ∃ a, m.Reaches v a ∧ m.InItself a := by
  have hreaches : ∀ {u : Value} {a : ArrayRef}, ReflTransGen m.Opens u (.array a) → m.Reaches u a := by
    intro u a hreach
    induction hreach using ReflTransGen.head_induction_on with
    | refl => exact .array a
    | head hopens _ ih =>
      obtain ⟨hvalues, -⟩ := hopens
      exact .element (mem_of_split hvalues) ih
  obtain ⟨a, hreach, hcycle⟩ := h
  obtain ⟨e, ⟨hvalues, -⟩, hback⟩ := TransGen.head'_iff.mp hcycle
  exact ⟨a, hreaches hreach, e, mem_of_split hvalues, hreaches hback⟩

end Memory

/-- Where anything is taken, or a list of anything, a value becomes a native value or is refused, unless it leads to an
array that leads to itself; then it is turned forever. So it becomes something if no array that it comes by lies in
itself. -/
theorem taking_ends_unless_cyclic (m : Memory) (v : Value) :
    ((∃ r, m.Becomes v r) ↔ ¬m.LeadsToCycle v) ∧
    (∀ r, m.Becomes v r ↔ m.take .any v = r.mapError .refused) ∧
    (m.LeadsToCycle v ↔ m.take .any v = .error .endless) ∧
    ((∀ a, m.Reaches v a → ¬m.InItself a) → ∃ r, m.Becomes v r) ∧
    (m.take (.list .any) v = m.take .any v ∨
      (∀ a, v ≠ .array a) ∧ ∃ message, m.take (.list .any) v = .error (.refused message)) := by
  have hends : (∃ r, m.Becomes v r) ↔ ¬m.LeadsToCycle v := by
    constructor
    · rintro ⟨r, hr⟩
      exact hr.not_leadsToCycle
    · intro hcycle
      apply (Memory.exists_becomes_iff le_rfl).mpr
      intro hendless
      exact hcycle (Memory.leadsToCycle_of_endless _ List.nodup_nil nofun nofun (by simp) hendless)
  refine ⟨hends, fun r => Memory.becomes_iff le_rfl, ?_, ?_, ?_⟩
  · have hendless := (Memory.exists_becomes_iff (m := m) (v := v) le_rfl).symm.trans hends
    exact (not_iff_not.mp hendless).symm
  · intro hacyclic
    apply hends.mpr
    intro hcycle
    obtain ⟨a, hreach, hself⟩ := hcycle.inItself
    exact hacyclic a hreach hself
  · cases v
    case array a => exact .inl (m.take_list_any a)
    all_goals exact .inr ⟨nofun, _, rfl⟩

/-- An array whose only element is the array itself is turned forever. -/
theorem array_of_itself_endless : (¬∃ r, Memory.Becomes ⟨#[.array 0], #[#[some 0]], 0⟩ (.array 0) r) ∧
    Memory.take ⟨#[.array 0], #[#[some 0]], 0⟩ .any (.array 0) = .error .endless := by
  refine ⟨?_, rfl⟩
  rw [Memory.exists_becomes_iff le_rfl]
  exact not_not.mpr rfl

end Primer
