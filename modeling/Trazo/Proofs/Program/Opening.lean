import Trazo.Proofs.Program.Unambiguity
import Trazo.Proofs.Program.ViablePrefix

/-!
Blocks that are open where the tokens of a program are cut.

A block is introduced by the tokens before its opening brace. Whole statements after that brace are
statements of the program as well, apart from a condition that may have lost its else block. So they
nest no deeper than the program does.
-/

namespace Trazo

namespace Program

open Parse

/-- A block that is open, with the keyword that introduces it. An else block comes with the keyword
of its condition as well. -/
inductive Opening
  | main (keyword : Token)
  | procedure (keyword : Token) (name : String)
  | loop (keyword : Token)
  | yes (keyword : Token)
  | no (condition keyword : Token)

namespace Opening

/-- What messages call the block. -/
def what : Opening → String
  | .main _ => "'programa'"
  | .procedure _ name => "procedure '" ++ name ++ "'"
  | .loop _ => "'repetir'"
  | .yes _ => "'si'"
  | .no .. => "'sino'"

def keyword : Opening → Token
  | .main t | .procedure t _ | .loop t | .yes t | .no _ t => t

/-- The keyword on whose line the block is reported. -/
def reported : Opening → Token
  | .no condition _ => condition
  | o => o.keyword

/-- The fault that is reported at the token `t` when the block is still open. -/
def fault (o : Opening) (t : Token) : SyntaxFault :=
  ⟨.unclosedBlock o.what, t, o.reported.line, none⟩

end Opening

/-- The tokens before the brace that opens the block, from the keyword on. Those of an else block
start with its condition. -/
inductive Introduces : List Token → Opening → Prop
  | main {t : Token} (ht : t.kind = .keyword .programa) : Introduces [t] (.main t)
  | procedure {t n l r : Token} {name : String} (ht : t.kind = .keyword .procedimiento)
      (hn : n.kind = .identifier) (hc : n.content = .text name) (hl : l.kind = .openParen)
      (hr : r.kind = .closeParen) : Introduces [t, n, l, r] (.procedure t name)
  | loop {t n v : Token} (ht : t.kind = .keyword .repetir) (hn : n.kind = .number)
      (hv : v.kind = .keyword .veces) : Introduces [t, n, v] (.loop t)
  | yes {t l q r : Token} {s : Sensor} (ht : t.kind = .keyword .si) (hl : l.kind = .openParen)
      (hq : q.kind = .sensor s) (hr : r.kind = .closeParen) : Introduces [t, l, q, r] (.yes t)
  | no {t l q r e : Token} {s : Sensor} {ts : List Token} {b : Block}
      (ht : t.kind = .keyword .si) (hl : l.kind = .openParen) (hq : q.kind = .sensor s)
      (hr : r.kind = .closeParen) (hb : Writes ts (.block b)) (he : e.kind = .keyword .sino) :
      Introduces (t :: l :: q :: r :: (ts ++ [e])) (.no t e)

/-- The tokens end with those that introduce the block. -/
def Headed (xs : List Token) (o : Opening) : Prop := ∃ ys hs, xs = ys ++ hs ∧ Introduces hs o

variable {xs ys ts us vs : List Token} {w o : Opening} {b c : Block}

lemma Headed.append (h : Headed xs o) (ys : List Token) : Headed (ys ++ xs) o := by
  obtain ⟨zs, hs, rfl, hi⟩ := h
  exact ⟨ys ++ zs, hs, by simp, hi⟩

/-! ### Statements at the same place -/

/-- After the brace `l`, the tokens `vs` and what follows them start with whole statements. -/
structure Broken (l : Token) (vs ts : List Token) : Prop where
  brace : l.kind = .openBrace
  statements : ∃ b, Writes ts (.statements b)
  rest : ∃ zs ys, vs ++ zs = ts ++ ys

variable {l t : Token}

lemma Broken.of_append (h : Broken l (vs ++ us) ts) : Broken l vs ts := by
  obtain ⟨hl, hb, zs, ys, he⟩ := h
  exact ⟨hl, hb, us ++ zs, ys, (List.append_assoc ..).symm.trans he⟩

end Program

end Trazo
