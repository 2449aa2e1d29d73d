import Primer.Value.Memory

/-!
# Scopes

A scope binds names to values; anything that is not a place yet is put into a cell of its own first.
-/

set_option autoImplicit false

namespace Primer

/-- The bindings of one level, each name once. -/
structure Scope where
  entries : List (String × Value)
  deriving Inhabited

namespace Scope

/-- A scope without bindings. -/
def empty : Scope := ⟨[]⟩

/-- What a name is bound to in this scope. -/
def find? (s : Scope) (name : String) : Option Value :=
  (s.entries.find? fun e => e.1 == name).map Prod.snd

/-- Binds a name, in place of an earlier binding. -/
def bind (s : Scope) (name : String) (v : Value) : Scope :=
  ⟨(name, v) :: s.entries.filter fun e => e.1 != name⟩

/-- Binding a name changes what it means, and nothing else. -/
theorem find?_bind (sc : Scope) (x : String) (v : Value) (y : String) :
    (sc.bind x v).find? y = if y = x then some v else sc.find? y := by
  unfold Scope.find? Scope.bind
  by_cases hxy : y = x
  · simp [hxy]
  · have hrest : (sc.entries.filter fun e => e.1 != x).find? (fun e => e.1 == y) =
        sc.entries.find? fun e => e.1 == y := by
      rw [List.find?_filter]
      congr 1
      funext e
      by_cases he : e.1 = y
      · simp [he, hxy]
      · simp [he]
    rw [List.find?_cons_of_neg (by simpa using Ne.symm hxy), hrest, if_neg hxy]

/-- What a name is bound to in the first of several scopes that binds it. -/
def findIn? (scopes : List Scope) (name : String) : Option Value :=
  scopes.findSome? fun s => s.find? name

end Scope

/-- The place for a value: itself if it is one, else a new cell that holds it. -/
def Memory.place (m : Memory) (v : Value) : Value × Memory :=
  if v.isPlace then (v, m)
  else
    let (r, m) := m.alloc v
    (.cell r, m)

/-- Binds a name to the place for a value. -/
def Scope.declare (s : Scope) (m : Memory) (name : String) (v : Value) : Scope × Memory :=
  let (p, m) := m.place v
  (s.bind name p, m)

/-- Binds several names in order. -/
def Scope.declareAll (s : Scope) (m : Memory) : List (String × Value) → Scope × Memory
  | [] => (s, m)
  | (name, v) :: rest =>
    let (s, m) := s.declare m name v
    declareAll s m rest

end Primer
