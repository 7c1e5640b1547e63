import TimedCache.Text.Quoted

/-!
Items, the pairs of a key and a value that a listing of a cache consists of, and their text.
-/
namespace TimedCache

structure Item (K V : Type) where
  key : K
  value : V
deriving DecidableEq

/-- Types whose values have a text within the text of an item. -/
class Shown (α : Type) where
  shown : α → String

instance : Shown String := ⟨Text.quoted⟩
instance : Shown Nat := ⟨toString⟩
instance : Shown Int := ⟨toString⟩

namespace Item

variable {K V : Type}

def toPair (i : Item K V) : K × V := (i.key, i.value)

def text [Shown K] [Shown V] (i : Item K V) : String :=
  "Entry \x7b key: " ++ Shown.shown i.key ++ ", data: " ++ Shown.shown i.value ++ " \x7d"

end Item
end TimedCache
