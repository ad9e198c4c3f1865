/-!
# Powers

`m ^ n` is the power of the core library, for natural numbers and for integers. The instance here
keeps it so where another library is in scope that has powers of its own.
-/

namespace Reckon

@[default_instance high, reducible] instance (priority := high) powNat {α : Type} [NatPow α] :
    Pow α Nat := instPowNat

end Reckon
