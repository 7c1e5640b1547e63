import Std.Data.ExtTreeMap

/-!
Keys of a cache: any type with a lawful total order in which equivalent keys are equal. The order
is the one in which listings come.
-/
namespace TimedCache

class CacheKey (K : Type) extends Ord K where
  transOrd : Std.TransOrd K
  lawfulEqOrd : Std.LawfulEqOrd K

instance CacheKey.instTransOrd {K : Type} [CacheKey K] : Std.TransOrd K := CacheKey.transOrd

instance CacheKey.instLawfulEqOrd {K : Type} [CacheKey K] : Std.LawfulEqOrd K :=
  CacheKey.lawfulEqOrd

/-- Texts are ordered by code points. -/
instance : CacheKey String := ⟨inferInstance, inferInstance⟩

instance : CacheKey Int := ⟨inferInstance, inferInstance⟩

instance : CacheKey Nat := ⟨inferInstance, inferInstance⟩

end TimedCache
