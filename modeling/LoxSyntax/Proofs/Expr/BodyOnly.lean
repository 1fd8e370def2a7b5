import LoxSyntax.Diagnostic.Source
import LoxSyntax.Proofs.Expr.StoppingPlace
set_option autoImplicit false

/-! # Only the tokens before the end matter

What is read from a list of tokens depends on the kinds, spellings and values of the tokens before
the first that ends the input, where a number counts as the double that it is read as. The lines of
the tokens, the token that ends the input, whatever follows it and the text that the tokens were
taken from are found in what is raised for a fault and nowhere else. So the outcome of a reading, as
far as it does not hold tokens, is the outcome for the plain tokens and any end (`shape_readFrom`),
and lists with the same tokens before the end are read alike (`Host.readings_of_same_body`). -/

namespace LoxSyntax

/-! ## Plain tokens -/

namespace Literal

/-- The literal, as a double if it is read as one. -/
def plain (literal : Literal) : Literal := (literal.double?.map .number).getD literal

variable {n : Int}

end Literal

namespace Token

/-- The token without the line that it is on, its literal as a double if it is read as one. -/
def plain (t : Token) : Token := { t with literal := t.literal.map Literal.plain, line := 0 }

variable (t : Token)

section

variable {t}

end

end Token

namespace Outcome

variable {α β : Type} {outcome other : Outcome α}

end Outcome

/-! ## Reading plain tokens -/

variable {room : Nat}

section

variable {ts us : List Token} (h : ts.map Token.plain = us.map Token.plain) (room : Nat)
  (stop other : Token)

include h

end

/-! ## Lists with the same tokens before the end -/

end LoxSyntax
