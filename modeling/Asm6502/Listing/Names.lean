import Asm6502.Text.Basic

/-! Addresses by name, where a later address for a name takes the place of the earlier. -/
namespace Asm6502.Listing

/-- Names in the order in which they first came, each with its latest address. -/
abbrev Names := List (Text × Int)

namespace Names

def set (names : Names) (name : Text) (address : Int) : Names :=
  if names.any fun n => n.1 == name then
    names.map fun n => if n.1 == name then (name, address) else n
  else names ++ [(name, address)]

def update (names others : Names) : Names := others.foldl (fun ns n => ns.set n.1 n.2) names

def ofPairs (pairs : List (Text × Int)) : Names := update [] pairs

end Names
end Asm6502.Listing
