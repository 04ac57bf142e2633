namespace Bhasha

/-!
# Powers of natural numbers

A power of natural numbers is that of the core library in every module, also where
the powers of algebraic structures are in scope.
-/

attribute [instance (2000), default_instance 20000] instPowNat

end Bhasha
