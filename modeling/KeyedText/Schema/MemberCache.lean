import KeyedText.Schema.Basic

/-!
# Member cache

Finding a member folds every name and alias of a type. A cache remembers the position found for a
type and a folded name. Names that address nothing are looked up anew each time.

## Main definitions

- `MemberCache` — the positions found so far
- `MemberCache.find` — the member that a name addresses, and the cache afterwards
-/

namespace KeyedText

/-- The positions found so far, by type and folded name. -/
structure MemberCache where
  entries : List ((Text × Text) × Nat)
  deriving DecidableEq, Repr

namespace MemberCache

/-- A cache that remembers nothing. -/
def empty : MemberCache := ⟨[]⟩

/-- The position remembered for a type and a folded name. -/
def position? (cache : MemberCache) (typeName folded : Text) : Option Nat :=
  (cache.entries.find? fun entry => entry.1 == (typeName, folded)).map (·.2)

/-- The member of a type that a folded name addresses. A position that is not remembered is looked
up, and remembered if there is one. -/
def find (cache : MemberCache) (type : ObjectType) (folded : Text) :
    Option Member × MemberCache :=
  match cache.position? type.typeName folded with
  | some position => (type.members[position]?, cache)
  | none =>
    match memberPosition? type.members folded with
    | none => (none, cache)
    | some position =>
      (type.members[position]?, ⟨((type.typeName, folded), position) :: cache.entries⟩)

/-- The member of a type that a name addresses, in any spelling. -/
def findNamed (cache : MemberCache) (type : ObjectType) (name : Text) :
    Option Member × MemberCache :=
  cache.find type (Text.fold name)

end MemberCache

end KeyedText
