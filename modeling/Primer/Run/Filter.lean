/-!
# Command filters

Every construct of the language and every host function has a tag. A filter says which tags a program may
use. The entry `jsmm` stands for all constructs of the language.
-/

set_option autoImplicit false

namespace Primer

/-- The entry that stands for every construct of the language. -/
def languageGroup : String := "jsmm"

/-- The tags of the constructs of the language. -/
def languageTags : List String :=
  ["++", "+s", "+", "+=", ">", "==", "&&", "!", "=", "var", "if", "else", "while", "for", "function",
   "return", "call"]

/-- A restriction on tags: the allowed ones, or all if `allowAll`, less the denied ones. -/
structure CommandFilter where
  allowAll : Bool
  allowed : List String
  denied : List String
  deriving Repr, DecidableEq, Inhabited

namespace CommandFilter

/-- Replaces the group entry by the tags that it stands for. -/
def expand (entries : List String) : List String :=
  entries.flatMap fun e => if e = languageGroup then languageTags else [e]

/-- The filter of an allow list and a deny list. An empty allow list allows everything. -/
def of (allow deny : List String) : CommandFilter := ⟨allow.isEmpty, expand allow, expand deny⟩

/-- Whether a tag may be used. -/
def allows (f : CommandFilter) (tag : String) : Bool :=
  if f.denied.contains tag then false else f.allowAll || f.allowed.contains tag

/-- Whether a tag may be used under a filter that may be absent. -/
def allowsTag : Option CommandFilter → String → Bool
  | none, _ => true
  | some f, tag => f.allows tag

/-- The tags that are allowed by name and not denied, in order, each once. -/
def allowedTags (f : CommandFilter) : List String :=
  ((f.allowed.filter fun t => !f.denied.contains t).eraseDups).mergeSort fun a b => decide (a ≤ b)

end CommandFilter

end Primer
