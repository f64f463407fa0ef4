import DiceLang.Value.Basic

/-! The imports that are resolved, each with its bindings, and those in progress. -/

namespace DiceLang

structure ImportCache where
  resolved : List (String × MapRef)
  inProgress : List String
deriving Inhabited

namespace ImportCache

def empty : ImportCache := ⟨[], []⟩

def get? (c : ImportCache) (address : String) : Option MapRef := Entries.get? c.resolved address

def size (c : ImportCache) : Nat := c.resolved.length

def begin? (c : ImportCache) (address : String) : Option ImportCache :=
  if address ∈ c.inProgress then none else some { c with inProgress := address :: c.inProgress }

def abort (c : ImportCache) (address : String) : ImportCache :=
  { c with inProgress := c.inProgress.filter (· != address) }

def complete (c : ImportCache) (address : String) (bindings : MapRef) : ImportCache :=
  ⟨Entries.put c.resolved address bindings, (c.abort address).inProgress⟩

end ImportCache

end DiceLang
