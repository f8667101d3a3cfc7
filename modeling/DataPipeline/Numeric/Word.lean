/-!
# Words

A word of so many bits takes one of finitely many values. Read without a sign
they are the natural numbers below the size of the word; read with a sign they
are the integers from minus one half of the size up to the other half.
-/

namespace DataPipeline.Numeric

/-- Number of values of a word. -/
def wordSize (bits : Nat) : Nat := Nat.pow 2 bits

/-- Whether a natural number is the value of an unsigned word. -/
def fitsUnsigned (bits n : Nat) : Bool := n < wordSize bits

/-- Whether an integer is the value of a signed word. -/
def fitsSigned (bits : Nat) (n : Int) : Bool :=
  -(wordSize (bits - 1) : Int) ≤ n && n < wordSize (bits - 1)

end DataPipeline.Numeric
