set_option autoImplicit false

/-! # Running and checking

The same statements are read in two modes. Executing performs them; validating only checks that they
could be read, walking every branch once in the order of the text.

The readers do not ask for the mode itself but for one of the questions below. Each names one thing
in which the modes differ, so a difference between running and checking is found by looking for its
question. -/

namespace NumScript.Script

/-- What is done with the statements of a script. -/
inductive Mode where
  | execute
  | validate
  deriving DecidableEq

namespace Mode

def performsEffects : Mode → Bool
  | execute => true
  | validate => false

def followsBranches : Mode → Bool
  | execute => true
  | validate => false

def enforcesReadonly : Mode → Bool
  | execute => true
  | validate => false

def observesTermination : Mode → Bool
  | execute => true
  | validate => false

/-- Whether a division by zero is let pass: while checking, variables do not have the values they
will have, so it says nothing about the script. -/
def toleratesArithmeticFaults : Mode → Bool
  | execute => false
  | validate => true

end Mode

end NumScript.Script
