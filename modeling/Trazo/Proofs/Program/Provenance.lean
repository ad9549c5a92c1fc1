import Mathlib
import Trazo.Proofs.Program.Production

/-!
Where the integers of programs and of faults come from.

A program has its lines from its tokens, and the text of a fault is written with no other integers
than those of the tokens and the cap on blocks. Each way of building productions keeps this. So
whether a fault can be written can be told from the tokens.
-/

namespace Trazo

variable {L N : Set Int}

mutual

/-- The statement and all in it stand on lines of `L`. A foreign statement stands in no text. -/
def Statement.StandsOn (L : Set Int) : Statement → Prop
  | .command _ line | .call _ line => line ∈ L
  | .loop _ body line => line ∈ L ∧ BlockStandsOn L body
  | .branch _ yes none line => line ∈ L ∧ BlockStandsOn L yes
  | .branch _ yes (some no) line => line ∈ L ∧ BlockStandsOn L yes ∧ BlockStandsOn L no
  | .foreign .. => False

/-- The statements of the block stand on lines of `L`. -/
def BlockStandsOn (L : Set Int) : Block → Prop
  | [] => True
  | s :: r => s.StandsOn L ∧ BlockStandsOn L r

end

lemma Statement.StandsOn.line {s : Statement} (h : s.StandsOn L) : s.line ∈ L := by
  match s, h with
  | .command .., h | .call .., h => exact h
  | .loop .., h | .branch _ _ none _, h | .branch _ _ (some _) _, h => exact h.1

lemma blockStandsOn_iff {b : Block} : BlockStandsOn L b ↔ ∀ s ∈ b, s.StandsOn L := by
  induction b with
  | nil => simp [BlockStandsOn]
  | cons s r ih => simp [BlockStandsOn, ih]

/-- The blocks of the program and their statements stand on lines of `L`. -/
structure Program.StandsOn (L : Set Int) (p : Program) : Prop where
  main : ∀ m ∈ p.main, m.line ∈ L ∧ BlockStandsOn L m.body
  procedures : ∀ q ∈ p.procedures, q.line ∈ L ∧ BlockStandsOn L q.body

/-- The token stands on a line of `L`, and the number it may hold is in `N`. -/
structure Token.Draws (L N : Set Int) (t : Token) : Prop where
  line : t.line ∈ L
  numbers : ∀ n ∈ t.content.numbers, n ∈ N

namespace Parser

/-- The tokens that the parser has before it stand on lines of `L`. The numbers they hold are in
`N`, and so is the cap on blocks. -/
structure Draws (L N : Set Int) (p : Parser) : Prop where
  tokens : ∀ t ∈ p.current :: p.ahead, t.Draws L N
  cap : p.cap ∈ N

variable {p : Parser}

lemma Draws.current (h : p.Draws L N) : p.current.Draws L N := h.tokens _ (by simp)

lemma Draws.next (h : p.Draws L N) : p.next.Draws L N := by
  unfold Parser.next
  split
  · exact h
  · split
    · exact h
    · rename_i t ts hahead
      refine ⟨fun u hu => h.tokens u ?_, h.cap⟩
      rw [hahead]
      exact List.mem_cons_of_mem _ hu

end Parser

namespace Parse

variable {α β : Type} {x : Parse α} {Q : α → Prop} {R : β → Prop} {p : Parser}

/-- A fault of the grammar is reported on a line of `L`, and is written with integers of `L` and
`N`. Writing fails only on an integer of `N`. -/
structure Reported (L N : Set Int) (e : ParseFault) (_ : Parser) : Prop where
  line : ∀ f, e = .grammar f → f.line ∈ L
  numbers : ∀ f, e = .grammar f → ∀ n ∈ f.numbers, n ∈ L ∪ N
  unwritable : e = .unwritable → ∃ n ∈ N, Text.Integer.isWritable n = false

lemma reported_grammar {f : SyntaxFault} (hline : f.line ∈ L) (hn : ∀ n ∈ f.numbers, n ∈ L ∪ N) :
    Reported L N (.grammar f) p := by
  refine ⟨?_, ?_, by simp⟩
  all_goals
    rintro _ ⟨⟩
    assumption

lemma reported_count (f : CountFault) : Reported L N (.count f) p := ⟨by simp, by simp, by simp⟩

lemma reported_unwritable {n : Int} (hn : n ∈ N) (hw : Text.Integer.isWritable n = false) :
    Reported L N .unwritable p := ⟨by simp, by simp, fun _ => ⟨n, hn, hw⟩⟩

/-- From tokens and a cap with the integers of `L` and `N`, the production draws on these: its value
is in `Q`, or its fault is reported with them. -/
def KeepsTo (L N : Set Int) (x : Parse α) (Q : α → Prop) : Prop :=
  ∀ p : Parser, p.Draws L N → After x p (fun a q => Q a ∧ q.Draws L N) (Reported L N)

lemma KeepsTo.mono {Q' : α → Prop} (h : KeepsTo L N x Q) (hq : ∀ a, Q a → Q' a) :
    KeepsTo L N x Q' :=
  fun p hp => (h p hp).mono (fun a _ ha => ⟨hq a ha.1, ha.2⟩) fun _ _ he => he

/-! ### Single tokens -/

lemma keepsTo_pure {a : α} (h : Q a) : KeepsTo L N (pure a) Q := fun _ hp => ⟨h, hp⟩

/-- The integers of a fault are those of its token and of its cause. -/
lemma numbers_of_draws {t : Token} {cause : SyntaxCause} {line : Int} {column : Option Int}
    (ht : t.Draws L N) (hc : ∀ n ∈ cause.numbers, n ∈ L ∪ N) :
    ∀ n ∈ (SyntaxFault.mk cause t line column).numbers, n ∈ L ∪ N := by
  intro n hn
  rcases List.mem_append.mp hn with hn | hn
  · exact .inr (ht.numbers n hn)
  · exact hc n hn

lemma keepsTo_fail {cause : SyntaxCause} (hc : ∀ n ∈ cause.numbers, n ∈ L ∪ N) :
    KeepsTo L N (fail cause : Parse α) Q := fun _ hp =>
  reported_grammar hp.current.line (numbers_of_draws hp.current hc)

lemma keepsTo_failAt {t : Token} (ht : t.Draws L N) {cause : SyntaxCause}
    (hc : ∀ n ∈ cause.numbers, n ∈ L ∪ N) : KeepsTo L N (failAt t cause : Parse α) Q := fun _ _ =>
  reported_grammar ht.line (numbers_of_draws ht hc)

lemma keepsTo_failOn {line : Int} (hline : line ∈ L) {cause : SyntaxCause}
    (hc : ∀ n ∈ cause.numbers, n ∈ L ∪ N) : KeepsTo L N (failOn line cause : Parse α) Q :=
  fun _ hp => reported_grammar hline (numbers_of_draws hp.current hc)

lemma keepsTo_count (f : CountFault) : KeepsTo L N (throw (.count f) : Parse α) Q :=
  fun _ _ => reported_count f

lemma keepsTo_advance : KeepsTo L N advance (Token.Draws L N) := fun _ hp => ⟨hp.current, hp.next⟩

lemma keepsTo_expect (k : Token.Kind) (advice : String) :
    KeepsTo L N (expect k advice) (Token.Draws L N) := by
  intro p hp
  rw [after_expect_iff]
  split
  · exact ⟨hp.current, hp.next⟩
  · exact keepsTo_fail (by simp [SyntaxCause.numbers]) p hp

lemma keepsTo_written {c : Token.Content} (hc : ∀ n ∈ c.numbers, n ∈ N) :
    KeepsTo L N (written c) fun _ => True := by
  intro p hp
  rw [after_written]
  split
  · exact ⟨trivial, hp⟩
  · rename_i hno
    obtain ⟨n, hn, hw⟩ := List.all_eq_false.mp (Bool.not_eq_true _ ▸ hno)
    exact reported_unwritable (hc n hn) (by simpa using hw)

lemma keepsTo_consumeIf (k : Token.Kind) : KeepsTo L N (consumeIf [k]) fun _ => True := by
  intro p hp
  rw [after_consumeIf]
  split
  · exact ⟨trivial, hp.next⟩
  · exact ⟨trivial, hp⟩

/-! ### Building productions -/

lemma keepsTo_bind {f : α → Parse β} (hx : KeepsTo L N x Q) (hf : ∀ a, Q a → KeepsTo L N (f a) R) :
    KeepsTo L N (x >>= f) R := by
  intro p hp
  rw [after_bind]
  exact (hx p hp).mono (fun a q h => hf a h.1 q h.2) fun _ _ he => he

lemma keepsTo_get {f : Parser → Parse α} (h : ∀ p, p.Draws L N → KeepsTo L N (f p) Q) :
    KeepsTo L N (get >>= f) Q := by
  intro p hp
  rw [after_bind]
  exact h p hp p hp

lemma keepsTo_nested (h : KeepsTo L N x Q) : KeepsTo L N (nested x) Q := by
  intro p hp
  rw [after_nested]
  refine (h { p with depth := p.depth + 1 } ⟨hp.tokens, hp.cap⟩).mono ?_ ?_
  · exact fun a q ha => ⟨ha.1, ha.2.tokens, ha.2.cap⟩
  · exact fun e q he => ⟨he.line, he.numbers, he.unwritable⟩

lemma keepsTo_collect (stop : List Token.Kind) (h : KeepsTo L N x Q) (n : Nat) :
    KeepsTo L N (collect stop x n) fun as => ∀ a ∈ as, Q a := by
  induction n with
  | zero => exact keepsTo_pure (by simp)
  | succ n ih =>
    refine keepsTo_get fun p _ => ?_
    split
    · exact keepsTo_pure (by simp)
    · refine keepsTo_bind h fun a ha => keepsTo_bind ih fun as has => keepsTo_pure ?_
      exact List.forall_mem_cons.mpr ⟨ha, has⟩

/-! ### Productions -/

/-- The rule keeps to these integers, if it is told a line of `L`. -/
def RuleKeepsTo (L N : Set Int) (rule : BlockRule) : Prop :=
  ∀ what, ∀ line ∈ L, KeepsTo L N (rule what line) (BlockStandsOn L)

variable {rule : BlockRule}

lemma keepsTo_sensor : KeepsTo L N sensor fun _ => True := by
  refine keepsTo_get fun p _ => ?_
  split
  · exact keepsTo_bind keepsTo_advance fun _ _ => keepsTo_pure trivial
  · exact keepsTo_fail (by simp [SyntaxCause.numbers])

lemma keepsTo_loop (h : RuleKeepsTo L N rule) : KeepsTo L N (loop rule) (Statement.StandsOn L) := by
  refine keepsTo_bind (keepsTo_expect _ _) fun start hstart => ?_
  refine keepsTo_bind (keepsTo_expect _ _) fun count hcount => ?_
  refine keepsTo_bind (keepsTo_written hcount.numbers) fun _ _ => ?_
  refine keepsTo_bind (keepsTo_expect _ _) fun _ _ => ?_
  refine keepsTo_bind (keepsTo_expect _ _) fun _ _ => ?_
  refine keepsTo_bind (h _ _ hstart.line) fun body hbody => ?_
  split
  · exact keepsTo_pure ⟨hstart.line, hbody⟩
  · exact keepsTo_count _

lemma keepsTo_branch (h : RuleKeepsTo L N rule) :
    KeepsTo L N (branch rule) (Statement.StandsOn L) := by
  refine keepsTo_bind (keepsTo_expect _ _) fun start hstart => ?_
  refine keepsTo_bind (keepsTo_expect _ _) fun _ _ => ?_
  refine keepsTo_bind keepsTo_sensor fun s _ => ?_
  refine keepsTo_bind (keepsTo_expect _ _) fun _ _ => ?_
  refine keepsTo_bind (keepsTo_expect _ _) fun _ _ => ?_
  refine keepsTo_bind (h _ _ hstart.line) fun yes hyes => ?_
  refine keepsTo_bind (keepsTo_consumeIf _) fun sino _ => ?_
  cases sino with
  | none => exact keepsTo_pure ⟨hstart.line, hyes⟩
  | some _ =>
    refine keepsTo_bind (keepsTo_expect _ _) fun _ _ => ?_
    exact keepsTo_bind (h _ _ hstart.line) fun no hno => keepsTo_pure ⟨hstart.line, hyes, hno⟩

lemma keepsTo_call : KeepsTo L N call (Statement.StandsOn L) := by
  refine keepsTo_bind (keepsTo_expect _ _) fun t ht => ?_
  refine keepsTo_bind (keepsTo_written ht.numbers) fun name _ => ?_
  refine keepsTo_get fun p _ => ?_
  split
  · exact keepsTo_failAt ht (by simp [SyntaxCause.numbers])
  · refine keepsTo_bind (keepsTo_expect _ _) fun _ _ => ?_
    exact keepsTo_bind (keepsTo_expect _ _) fun _ _ => keepsTo_pure ht.line

lemma keepsTo_statement (h : RuleKeepsTo L N rule) :
    KeepsTo L N (statement rule) (Statement.StandsOn L) := by
  refine keepsTo_get fun p hp => ?_
  dsimp only
  split
  · exact keepsTo_bind keepsTo_advance fun _ _ => keepsTo_pure hp.current.line
  · exact keepsTo_loop h
  · exact keepsTo_branch h
  · exact keepsTo_call
  · exact keepsTo_fail (by simp [SyntaxCause.numbers])

/-- **Blocks**: the recursion follows the room that is left. -/
theorem keepsTo_block (room : Nat) : RuleKeepsTo L N (block room) := by
  induction room with
  | zero =>
    exact fun what line hline => keepsTo_get fun p hp =>
      keepsTo_failOn hline (by simpa [SyntaxCause.numbers] using .inr hp.cap)
  | succ room ih =>
    intro what line hline
    have hstatements : KeepsTo L N (statements (block room)) (BlockStandsOn L) := by
      refine keepsTo_get fun p _ => ?_
      exact (keepsTo_collect _ (keepsTo_statement ih) _).mono fun b => blockStandsOn_iff.mpr
    refine keepsTo_nested (keepsTo_bind hstatements fun body hbody => ?_)
    refine keepsTo_get fun p _ => ?_
    split
    · exact keepsTo_failOn hline (by simp [SyntaxCause.numbers])
    · exact keepsTo_bind (keepsTo_expect _ _) fun _ _ => keepsTo_pure hbody

lemma keepsTo_blockHere : RuleKeepsTo L N blockHere :=
  fun what line hline => keepsTo_get fun p _ => keepsTo_block p.room what line hline

lemma keepsTo_mainBlock : KeepsTo L N mainBlock fun m => m.line ∈ L ∧ BlockStandsOn L m.body := by
  refine keepsTo_bind (keepsTo_expect _ _) fun start hstart => ?_
  refine keepsTo_bind (keepsTo_expect _ _) fun _ _ => ?_
  exact keepsTo_bind (keepsTo_blockHere _ _ hstart.line) fun body hbody =>
    keepsTo_pure ⟨hstart.line, hbody⟩

lemma keepsTo_procedure : KeepsTo L N procedure fun q => q.line ∈ L ∧ BlockStandsOn L q.body := by
  refine keepsTo_bind (keepsTo_expect _ _) fun start hstart => ?_
  refine keepsTo_bind (keepsTo_expect _ _) fun t ht => ?_
  refine keepsTo_bind (keepsTo_written ht.numbers) fun name _ => ?_
  refine keepsTo_bind (keepsTo_expect _ _) fun _ _ => ?_
  refine keepsTo_bind (keepsTo_expect _ _) fun _ _ => ?_
  refine keepsTo_bind (keepsTo_expect _ _) fun _ _ => ?_
  exact keepsTo_bind (keepsTo_blockHere _ _ hstart.line) fun body hbody =>
    keepsTo_pure ⟨hstart.line, hbody⟩

lemma keepsTo_declaration {a : Program} (ha : a.StandsOn L) :
    KeepsTo L N (declaration a) (Program.StandsOn L) := by
  refine keepsTo_get fun p _ => ?_
  split
  · split
    · rename_i m hm
      exact keepsTo_fail (by simpa [SyntaxCause.numbers] using .inl (ha.main m hm).1)
    · refine keepsTo_bind keepsTo_mainBlock fun m hm => keepsTo_pure ⟨?_, ha.procedures⟩
      rintro _ ⟨⟩
      exact hm
  · refine keepsTo_bind keepsTo_procedure fun q hq => keepsTo_pure ⟨ha.main, ?_⟩
    intro q' hq'
    rcases List.mem_append.mp hq' with h | h
    · exact ha.procedures q' h
    · obtain rfl := List.mem_singleton.mp h
      exact hq
  · exact keepsTo_fail (by simp [SyntaxCause.numbers])

lemma keepsTo_declarations (n : Nat) {a : Program} (ha : a.StandsOn L) :
    KeepsTo L N (declarations a n) (Program.StandsOn L) := by
  induction n generalizing a with
  | zero => exact keepsTo_pure ha
  | succ n ih =>
    refine keepsTo_get fun p _ => ?_
    split
    · exact keepsTo_pure ha
    · exact keepsTo_bind (keepsTo_declaration ha) fun b hb => ih hb

/-- **Whole programs** keep to the integers of their tokens and of the cap. -/
theorem keepsTo_program : KeepsTo L N program (Program.StandsOn L) := by
  have hempty : Program.StandsOn L {} := ⟨nofun, nofun⟩
  refine keepsTo_get fun p _ => keepsTo_bind (keepsTo_declarations _ hempty) fun a ha => ?_
  split
  · exact keepsTo_fail (by simp [SyntaxCause.numbers])
  · exact keepsTo_pure ha

end Parse

namespace Program

variable {tokens : List Token} {cap : Int}

/-- The integers of tokens and of the cap are all there are, in the program that they give or in
their fault. -/
theorem draws_ofTokens (h : ∀ t ∈ tokens, t.Draws L N) (hcap : cap ∈ N) :
    (∀ p, ofTokens tokens cap = .ok p → p.StandsOn L) ∧
      ∀ e, ofTokens tokens cap = .error (.parse e) → ∀ p, Parse.Reported L N e p := by
  unfold ofTokens
  cases hparser : Parser.ofTokens? tokens cap with
  | none => simp
  | some q =>
    have hq : q.current :: q.ahead = tokens ∧ q.cap = cap := by
      unfold Parser.ofTokens? at hparser
      split at hparser
      · cases hparser
      · split at hparser
        · cases hparser
          exact ⟨rfl, rfl⟩
        · cases hparser
    have hdraws : q.Draws L N := ⟨by rwa [hq.1], by rwa [hq.2]⟩
    have hkeeps := Parse.keepsTo_program q hdraws
    unfold Parse.After at hkeeps
    split at hkeeps
    · rename_i p _ hp
      simpa [hp, Except.mapError] using hkeeps.1
    · rename_i e _ he
      refine ⟨by simp [he, Except.mapError], fun e' he' p => ?_⟩
      simp only [he, Except.mapError, Except.error.injEq, TokenFault.parse.injEq] at he'
      subst he'
      exact ⟨hkeeps.line, hkeeps.numbers, hkeeps.unwritable⟩

end Program

end Trazo
