import Mathlib.Tactic.Lemma
import Trazo.Program.Parser
import Trazo.Proofs.Limits.Raising

/-!
Parsing under two caps on the nesting of blocks.

The cap is looked at when a block is opened and nowhere else. So a production does the same under a
larger cap, unless it has found blocks nested too deeply; each way of building productions keeps
this.
-/

namespace Trazo

namespace Parser

variable {p : Parser} {c : Int}

def withCap (p : Parser) (c : Int) : Parser := { p with cap := c }

@[simp] lemma current_withCap : (p.withCap c).current = p.current := rfl
@[simp] lemma ahead_withCap : (p.withCap c).ahead = p.ahead := rfl
@[simp] lemma isAt_withCap {kinds : List Token.Kind} :
    (p.withCap c).isAt kinds = p.isAt kinds := rfl

@[simp] lemma next_withCap : (p.withCap c).next = p.next.withCap c := by
  by_cases h : p.current.kind = .endOfFile
  · simp only [next, current_withCap, h, if_true]
  · simp only [next, current_withCap, ahead_withCap, h, if_false]
    cases p.ahead <;> rfl

lemma room_withCap_le {d : Int} (h : c ≤ d) : (p.withCap c).room ≤ (p.withCap d).room := by
  simp only [room, withCap]
  omega

lemma ofTokens?_eq_map (tokens : List Token) (c : Int) :
    ofTokens? tokens c = (ofTokens? tokens 0).map fun p => p.withCap c := by
  unfold ofTokens?
  cases tokens with
  | nil => rfl
  | cons t ts =>
    dsimp only
    split <;> rfl

end Parser

namespace Parse

variable {α β : Type} {c d : Int} {x y : Parse α} {p : Parser}

/-- From `p`, the production `x` under the cap `c` does what `y` does under `d`, unless it has found
blocks nested too deeply. -/
inductive Alike (c d : Int) (x y : Parse α) (p : Parser) : Prop
  | same {a : Except ParseFault α} {q : Parser} (hx : x (p.withCap c) = (a, q.withCap c))
      (hy : y (p.withCap d) = (a, q.withCap d))
  | tooDeep {f : SyntaxFault} {q : Parser} (hx : x (p.withCap c) = (.error (.grammar f), q))
      (hf : f.cause = .nestedTooDeeply c)

def Relaxes (c d : Int) (x y : Parse α) : Prop := ∀ p, Alike c d x y p

/-! ### Productions that open no block -/

lemma relaxes_pure (a : α) : Relaxes c d (pure a) (pure a) := fun _ => .same rfl rfl

lemma relaxes_throw (f : ParseFault) : Relaxes c d (throw f : Parse α) (throw f) :=
  fun _ => .same rfl rfl

lemma relaxes_fail (cause : SyntaxCause) : Relaxes c d (fail cause : Parse α) (fail cause) :=
  fun _ => .same rfl rfl

lemma relaxes_failAt (t : Token) (cause : SyntaxCause) :
    Relaxes c d (failAt t cause : Parse α) (failAt t cause) := fun _ => .same rfl rfl

lemma relaxes_failOn (line : Int) (cause : SyntaxCause) :
    Relaxes c d (failOn line cause : Parse α) (failOn line cause) := fun _ => .same rfl rfl

/-- A production that keeps the cap and does not look at it. -/
lemma relaxes_of_blind (h : ∀ p c, x (p.withCap c) = ((x p).1, (x p).2.withCap c)) :
    Relaxes c d x x := fun p => .same (h p c) (h p d)

lemma relaxes_advance : Relaxes c d advance advance := by
  refine relaxes_of_blind fun p c => ?_
  simp only [advance, Parser.current_withCap, Parser.next_withCap]

lemma relaxes_expect (wanted : Token.Kind) (advice : String) :
    Relaxes c d (expect wanted advice) (expect wanted advice) := by
  refine relaxes_of_blind fun p c => ?_
  by_cases h : p.current.kind = wanted
  · simp only [expect, advance, Parser.current_withCap, Parser.next_withCap, if_pos h]
  · simp only [expect, fail, failAt, throw, Parser.current_withCap, h, if_false]

lemma relaxes_consumeIf (kinds : List Token.Kind) :
    Relaxes c d (consumeIf kinds) (consumeIf kinds) := by
  refine relaxes_of_blind fun p c => ?_
  by_cases h : p.isAt kinds = true
  · simp only [consumeIf, Parser.isAt_withCap, Parser.current_withCap, Parser.next_withCap,
      if_pos h]
  · simp only [consumeIf, Parser.isAt_withCap, h, Bool.false_eq_true, if_false]

lemma relaxes_written (content : Token.Content) :
    Relaxes c d (written content) (written content) := by
  unfold written
  split
  · exact relaxes_pure _
  · exact relaxes_throw _

/-! ### Building productions -/

lemma bind_of_ok {f : α → Parse β} {a : α} {q : Parser} (h : x p = (.ok a, q)) :
    (x >>= f) p = f a q := by
  simp only [bind, Parse.bind, h]

lemma bind_of_error {f : α → Parse β} {e : ParseFault} {q : Parser} (h : x p = (.error e, q)) :
    (x >>= f) p = (.error e, q) := by
  simp only [bind, Parse.bind, h]

lemma nested_of_eq {a : Except ParseFault α} {q : Parser}
    (h : x { p with depth := p.depth + 1 } = (a, q)) :
    nested x p = (a, { q with depth := q.depth - 1 }) := by
  simp only [nested, h]

lemma relaxes_bind {f g : α → Parse β} (hx : Relaxes c d x y)
    (hf : ∀ a, Relaxes c d (f a) (g a)) : Relaxes c d (x >>= f) (y >>= g) := by
  intro p
  cases hx p with
  | tooDeep hx hcause => exact .tooDeep (bind_of_error hx) hcause
  | @same a q hx hy =>
    cases a with
    | error e => exact .same (bind_of_error hx) (bind_of_error hy)
    | ok a =>
      cases hf a q with
      | same hx' hy' => exact .same ((bind_of_ok hx).trans hx') ((bind_of_ok hy).trans hy')
      | tooDeep hx' hcause => exact .tooDeep ((bind_of_ok hx).trans hx') hcause

/-- What a production does next may depend on where the parser stands. -/
lemma relaxes_get {f g : Parser → Parse α}
    (h : ∀ p : Parser, Alike c d (f (p.withCap c)) (g (p.withCap d)) p) :
    Relaxes c d (get >>= f) (get >>= g) := by
  intro p
  cases h p with
  | same hx hy => exact .same hx hy
  | tooDeep hx hcause => exact .tooDeep hx hcause

lemma alike_ite {b : Bool} {x' y' : Parse α} (h : Alike c d x y p) (h' : Alike c d x' y' p) :
    Alike c d (if b = true then x else x') (if b = true then y else y') p := by
  cases b with
  | true => exact h
  | false => exact h'

lemma relaxes_nested (h : Relaxes c d x y) : Relaxes c d (nested x) (nested y) := by
  intro p
  cases h { p with depth := p.depth + 1 } with
  | @same a q hx hy =>
    exact .same (q := { q with depth := q.depth - 1 }) (nested_of_eq (q := q.withCap c) hx)
      (nested_of_eq (q := q.withCap d) hy)
  | tooDeep hx hcause => exact .tooDeep (nested_of_eq hx) hcause

lemma relaxes_collect (stop : List Token.Kind) (h : Relaxes c d x y) (n : Nat) :
    Relaxes c d (collect stop x n) (collect stop y n) := by
  induction n with
  | zero => exact relaxes_pure []
  | succ n ih =>
    refine relaxes_get fun p => alike_ite (relaxes_pure [] p) ?_
    exact relaxes_bind h (fun a => relaxes_bind ih fun rest => relaxes_pure (a :: rest)) p

/-! ### Productions -/

/-- Both rules do the same for every block, unless the first finds blocks nested too deeply. -/
def RuleRelaxes (c d : Int) (rule rule' : BlockRule) : Prop :=
  ∀ what line, Relaxes c d (rule what line) (rule' what line)

variable {rule rule' : BlockRule}

lemma relaxes_sensor : Relaxes c d sensor sensor := by
  refine relaxes_get fun p => ?_
  simp only [Parser.current_withCap]
  split
  · exact relaxes_bind relaxes_advance (fun _ => relaxes_pure _) p
  · exact relaxes_fail _ p

lemma relaxes_loop (h : RuleRelaxes c d rule rule') : Relaxes c d (loop rule) (loop rule') := by
  refine relaxes_bind (relaxes_expect _ _) fun start => ?_
  refine relaxes_bind (relaxes_expect _ _) fun count => ?_
  refine relaxes_bind (relaxes_written _) fun _ => ?_
  refine relaxes_bind (relaxes_expect _ _) fun _ => ?_
  refine relaxes_bind (relaxes_expect _ _) fun _ => ?_
  refine relaxes_bind (h _ _) fun body => ?_
  split
  · exact relaxes_pure _
  · exact relaxes_throw _

lemma relaxes_branch (h : RuleRelaxes c d rule rule') :
    Relaxes c d (branch rule) (branch rule') := by
  refine relaxes_bind (relaxes_expect _ _) fun start => ?_
  refine relaxes_bind (relaxes_expect _ _) fun _ => ?_
  refine relaxes_bind relaxes_sensor fun s => ?_
  refine relaxes_bind (relaxes_expect _ _) fun _ => ?_
  refine relaxes_bind (relaxes_expect _ _) fun _ => ?_
  refine relaxes_bind (h _ _) fun yes => ?_
  refine relaxes_bind (relaxes_consumeIf _) fun sino => ?_
  cases sino with
  | none => exact relaxes_pure _
  | some _ =>
    refine relaxes_bind (relaxes_expect _ _) fun _ => ?_
    exact relaxes_bind (h _ _) fun no => relaxes_pure _

lemma relaxes_call : Relaxes c d call call := by
  refine relaxes_bind (relaxes_expect _ _) fun t => ?_
  refine relaxes_bind (relaxes_written _) fun _ => ?_
  refine relaxes_get fun p => alike_ite (relaxes_failAt _ _ p) ?_
  refine relaxes_bind (relaxes_expect _ _) (fun _ => ?_) p
  exact relaxes_bind (relaxes_expect _ _) fun _ => relaxes_pure _

lemma relaxes_statement (h : RuleRelaxes c d rule rule') :
    Relaxes c d (statement rule) (statement rule') := by
  refine relaxes_get fun p => ?_
  simp only [Parser.current_withCap]
  split
  · exact relaxes_bind relaxes_advance (fun _ => relaxes_pure _) p
  · exact relaxes_loop h p
  · exact relaxes_branch h p
  · exact relaxes_call p
  · exact relaxes_fail _ p

lemma relaxes_statements (h : RuleRelaxes c d rule rule') :
    Relaxes c d (statements rule) (statements rule') := by
  refine relaxes_get fun p => ?_
  exact relaxes_collect _ (relaxes_statement h) p.ahead.length p

/-- **Room**: with more room the rule for blocks does the same, unless there was too little. -/
theorem relaxes_block {room room' : Nat} (hle : room ≤ room') :
    RuleRelaxes c d (block room) (block room') := by
  induction room generalizing room' with
  | zero =>
    -- no room is left under the smaller cap, so whatever the larger one allows does not count
    intro what line p
    exact .tooDeep rfl rfl
  | succ room ih =>
    obtain ⟨n, rfl⟩ : ∃ n, room' = n + 1 := ⟨room' - 1, by omega⟩
    have hrule : RuleRelaxes c d (block room) (block n) := ih (by omega)
    intro what line
    refine relaxes_nested (relaxes_bind (relaxes_statements hrule) fun body => ?_)
    refine relaxes_get fun p => alike_ite (relaxes_failOn _ _ p) ?_
    exact relaxes_bind (relaxes_expect _ _) (fun _ => relaxes_pure body) p

lemma relaxes_blockHere (hle : c ≤ d) : RuleRelaxes c d blockHere blockHere := by
  intro what line
  refine relaxes_get fun p => ?_
  exact relaxes_block (Parser.room_withCap_le hle) what line p

lemma relaxes_mainBlock (hle : c ≤ d) : Relaxes c d mainBlock mainBlock := by
  refine relaxes_bind (relaxes_expect _ _) fun start => ?_
  refine relaxes_bind (relaxes_expect _ _) fun _ => ?_
  exact relaxes_bind (relaxes_blockHere hle _ _) fun body => relaxes_pure _

lemma relaxes_procedure (hle : c ≤ d) : Relaxes c d procedure procedure := by
  refine relaxes_bind (relaxes_expect _ _) fun start => ?_
  refine relaxes_bind (relaxes_expect _ _) fun t => ?_
  refine relaxes_bind (relaxes_written _) fun _ => ?_
  refine relaxes_bind (relaxes_expect _ _) fun _ => ?_
  refine relaxes_bind (relaxes_expect _ _) fun _ => ?_
  refine relaxes_bind (relaxes_expect _ _) fun _ => ?_
  exact relaxes_bind (relaxes_blockHere hle _ _) fun body => relaxes_pure _

lemma relaxes_declaration (hle : c ≤ d) (a : Program) :
    Relaxes c d (declaration a) (declaration a) := by
  refine relaxes_get fun p => ?_
  simp only [Parser.current_withCap]
  split
  · split
    · exact relaxes_fail _ p
    · exact relaxes_bind (relaxes_mainBlock hle) (fun _ => relaxes_pure _) p
  · exact relaxes_bind (relaxes_procedure hle) (fun _ => relaxes_pure _) p
  · exact relaxes_fail _ p

lemma relaxes_declarations (hle : c ≤ d) (n : Nat) (a : Program) :
    Relaxes c d (declarations a n) (declarations a n) := by
  induction n generalizing a with
  | zero => exact relaxes_pure a
  | succ n ih =>
    refine relaxes_get fun p => alike_ite (relaxes_pure a p) ?_
    exact relaxes_bind (relaxes_declaration hle a) ih p

lemma relaxes_program (hle : c ≤ d) : Relaxes c d program program := by
  refine relaxes_get fun p => ?_
  refine relaxes_bind (relaxes_declarations hle p.ahead.length {}) (fun a => ?_) p
  cases a.main with
  | none => exact relaxes_fail _
  | some _ => exact relaxes_pure a

end Parse

namespace Program

variable {tokens : List Token} {cap n : Nat}

lemma limit?_nestedTooDeeply {f : SyntaxFault} {c : Int} (h : f.cause = .nestedTooDeeply c) :
    f.diagnostic.limit? = some .nesting := by
  have hmessage : f.cause.message f.found = "Blocks nested too deeply" := by
    rw [h]
    rfl
  exact if_pos hmessage

/-- Tokens that do not fail because of nested blocks are parsed in the same way under a larger
cap. -/
theorem ofTokens_raised (h : ∀ f, ofTokens tokens cap = .error (.parse (.grammar f)) →
    f.diagnostic.limit? = some .nesting → n = 0) :
    ofTokens tokens ((cap + n : Nat) : Int) = ofTokens tokens cap := by
  have hle : (cap : Int) ≤ (cap + n : Nat) := by omega
  unfold ofTokens at h ⊢
  rw [Parser.ofTokens?_eq_map tokens (cap + n : Nat), Parser.ofTokens?_eq_map tokens cap]
  rw [Parser.ofTokens?_eq_map tokens cap] at h
  cases hp : Parser.ofTokens? tokens 0 with
  | none => rfl
  | some p =>
    simp only [hp, Option.map_some] at h ⊢
    cases Parse.relaxes_program hle p with
    | same hx hy => rw [hx, hy]
    | @tooDeep f q hx hcause =>
      obtain rfl := h f (by rw [hx]; rfl) (limit?_nestedTooDeeply hcause)
      rfl

end Program

end Trazo
