import Coercion.Number.Bits
import Coercion.Number.Decimal
import Coercion.Number.Money
import Coercion.Number.Significant
import Coercion.Time.Temporal

namespace Coercion

/-- Values of which some still stand for no value once they are computed. -/
class Nullable (α : Type) where
  isNull : α → Bool

instance : Nullable Double := ⟨fun x => !x.isFinite⟩
instance : Nullable Int := ⟨fun _ => false⟩
instance : Nullable Text := ⟨fun _ => false⟩
instance : Nullable BoundedInteger := ⟨fun _ => false⟩
instance : Nullable SignificantFloat := ⟨fun _ => false⟩
instance : Nullable Money := ⟨fun _ => false⟩
instance : Nullable Decimal := ⟨fun _ => false⟩
instance : Nullable Temporal := ⟨fun _ => false⟩

/-- A value, or its fallback if it failed or is null. -/
def ifNull {ε α : Type} [Nullable α] (value : Except ε α) (fallback : α) : α :=
  match value with
  | .ok a => if Nullable.isNull a then fallback else a
  | .error _ => fallback

end Coercion
