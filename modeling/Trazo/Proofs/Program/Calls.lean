import Mathlib.Data.List.Permutation
import Trazo.Proofs.Program.Unfolding
import Trazo.Proofs.Program.ViablePrefix

/-!
A parser that is asked for anything, in any order.

Its productions can be called one by one, and after a fault the next one starts where the last one
stopped. Whatever is called, the parser moves forward and never passes the first end of the source,
all blocks that it has opened are closed again, and no call goes on for ever.
-/

namespace Trazo.Parser

variable {α : Type} {p q : Parser}

/-! ### What can be asked of a parser -/

inductive Call
  | advance
  | isAt (kinds : List Token.Kind)
  | consumeIf (kinds : List Token.Kind)
  | expect (wanted : Token.Kind) (advice : String)
  | program
  | mainBlock
  | procedure
  | statements
  | statement
  | loop
  | branch
  | sensor
  | procedureCall

/-- What a parser answers. -/
inductive Answer
  | flag (b : Bool)
  | token (t : Token)
  | taken (t : Option Token)
  | program (r : Program)
  | mainBlock (m : MainBlock)
  | procedure (d : Procedure)
  | statements (b : Block)
  | statement (s : Statement)
  | sensor (s : Sensor)
  | fault (f : ParseFault)

/-- The value of a production as an answer, or its fault, and the parser after it. -/
def answer (f : α → Answer) (x : Parse α) (p : Parser) : Answer × Parser :=
  match x p with
  | (.ok a, q) => (f a, q)
  | (.error e, q) => (.fault e, q)

/-- The answer to a call, and the parser after it. -/
def ask (p : Parser) : Call → Answer × Parser
  | .advance => answer .token Parse.advance p
  | .isAt kinds => (.flag (p.isAt kinds), p)
  | .consumeIf kinds => answer .taken (Parse.consumeIf kinds) p
  | .expect wanted advice => answer .token (Parse.expect wanted advice) p
  | .program => answer .program Parse.program p
  | .mainBlock => answer .mainBlock Parse.mainBlock p
  | .procedure => answer .procedure Parse.procedure p
  | .statements => answer .statements (Parse.statements Parse.blockHere) p
  | .statement => answer .statement (Parse.statement Parse.blockHere) p
  | .loop => answer .statement (Parse.loop Parse.blockHere) p
  | .branch => answer .statement (Parse.branch Parse.blockHere) p
  | .sensor => answer .sensor Parse.sensor p
  | .procedureCall => answer .statement Parse.call p

/-- The parser after calls, some of which may have failed. -/
def after (p : Parser) (calls : List Call) : Parser := calls.foldl (fun p call => (p.ask call).2) p

/-! ### Calls end -/

/-- Unfolded `n` times, the rule for blocks and both loops do all that they do, whatever is put in
the place of what would come next. -/
structure EndsWithin (n : Nat) (p : Parser) : Prop where
  block : ∀ more what line, Parse.unfolded more n what line p = Parse.blockHere what line p
  statements : ∀ more,
    Parse.repeated (Parse.unfolded more n) n more p = Parse.statements Parse.blockHere p
  program : ∀ more, Parse.programUnfolded more n p = Parse.program p

/-- With an end of the source in sight, there are fewer turns than tokens that are left. -/
lemma SeesEnd.endsWithin {n : Nat} (h : p.SeesEnd) (hn : p.visible.length < n) :
    EndsWithin n p where
  block more what line := (Parse.agree_blockHere (.refl h) hn more what line).eq
  statements more := (Parse.agree_statements (.refl h) (Nat.le_of_lt hn) more).eq
  program more := (Parse.agree_program (.refl h) (Nat.le_of_lt hn) more).eq

/-! ### One call -/

/-- From `p` a call is answered further on, and peers of `p` answer alike. -/
structure Steady (p : Parser) (r r' : Answer × Parser) : Prop where
  reaches : p.Reaches r.2
  peers : r.2.Peers r'.2
  same : r'.1 = r.1

lemma steady_answer {k : Nat} {x : Parse α} (h : Parse.Agree k x x p q) (f : α → Answer) :
    Steady p (answer f x p) (answer f x q) := by
  obtain ⟨hreaches, -, hpeers, hsame, -⟩ := h
  unfold answer
  rcases hp : x p with ⟨e | a, p'⟩ <;> rcases hq : x q with ⟨r, q'⟩ <;>
    rw [hp] at hreaches hpeers hsame <;> rw [hq] at hpeers hsame <;> cases hsame
  all_goals exact ⟨hreaches, hpeers, rfl⟩

/-- **Each call** moves the parser forward, and what stands after the first end of the source makes
no difference to it. -/
lemma steady_ask (h : p.Peers q) (call : Call) : Steady p (p.ask call) (q.ask call) := by
  have hrule : ∀ p', p.Reaches p' → p.index < p'.index →
      Parse.RulesAgree Parse.blockHere Parse.blockHere p' :=
    fun p' _ _ => Parse.rulesAgree_blockHere p'
  cases call with
  | advance => exact steady_answer (Parse.agree_advance h) _
  | isAt kinds => exact ⟨.refl p, h, congrArg Answer.flag (h.isAt kinds)⟩
  | consumeIf kinds => exact steady_answer (Parse.agree_consumeIf h kinds) _
  | expect wanted advice => exact steady_answer (Parse.agree_expect h wanted advice) _
  | program =>
    have hself : Parse.Agree 0 Parse.program Parse.program p q :=
      Parse.agree_self (fun n _ _ h hn => Parse.agree_program h (Nat.le_of_lt hn) pure) h
    exact steady_answer hself _
  | mainBlock => exact steady_answer (Parse.agree_mainBlock h) _
  | procedure => exact steady_answer (Parse.agree_procedure h) _
  | statements =>
    have hself : Parse.Agree 0 (Parse.statements Parse.blockHere)
        (Parse.statements Parse.blockHere) p q :=
      Parse.agree_self (fun n _ _ h hn => Parse.agree_statements h (Nat.le_of_lt hn) (pure [])) h
    exact steady_answer hself _
  | statement => exact steady_answer (Parse.agree_statement h hrule) _
  | loop => exact steady_answer (Parse.agree_loop h hrule) _
  | branch => exact steady_answer (Parse.agree_branch h hrule) _
  | sensor => exact steady_answer (Parse.agree_sensor h) _
  | procedureCall => exact steady_answer (Parse.agree_call h) _

/-- **Any calls** do so too. -/
lemma steady_after (h : p.Peers q) (calls : List Call) :
    p.Reaches (p.after calls) ∧ (p.after calls).Peers (q.after calls) := by
  induction calls generalizing p q with
  | nil => exact ⟨.refl p, h⟩
  | cons call calls ih =>
    have hcall := steady_ask h call
    obtain ⟨hreaches, hpeers⟩ := ih hcall.peers
    exact ⟨hcall.reaches.trans hreaches, hpeers⟩

/-! ### Any calls -/

/-- A parser over tokens that end with the end of the source. -/
lemma exists_start {tokens : List Token} (cap : Int)
    (h : tokens.getLast?.map (·.kind) = some .endOfFile) :
    ∃ start, ofTokens? tokens cap = some start := by
  cases tokens with
  | nil => simp at h
  | cons t ts =>
    have hkind : (ts.getLast?.getD t).kind = .endOfFile := by simpa [List.getLast?_cons] using h
    exact ⟨_, if_pos hkind⟩

lemma seesEnd_of_ofTokens? {tokens : List Token} {cap : Int} (h : ofTokens? tokens cap = some p) :
    p.SeesEnd := by
  unfold ofTokens? at h
  split at h
  · cases h
  · rename_i t ts
    split at h
    · rename_i hkind
      cases h
      have hmem : ts.getLast?.getD t ∈ t :: ts := by
        refine List.mem_of_getLast? ?_
        rw [List.getLast?_cons]
      exact exists_mem_toEnd ⟨_, hmem, hkind⟩
    · cases h

lemma Reaches.index_le_firstEnd (h : p.Reaches q) (hp : p.index = 0) :
    q.index ≤ firstEnd p.tokens := by
  have hleft := h.length_visible
  have hpos := q.length_visible_pos
  have hall : p.visible.length ≤ firstEnd p.tokens + 1 := List.length_take_le _ p.tokens
  omega

/-- The token at which a parser stands is the one at its index. -/
lemma Reaches.getElem?_index (h : p.Reaches q) (hp : p.index = 0) :
    p.tokens[q.index]? = some q.current := by
  obtain ⟨ts, hts, hindex, -⟩ := h.passed
  rw [hts, hindex, hp, Nat.zero_add, List.getElem?_append_right (Nat.le_refl _), Nat.sub_self]
  rfl

/-- **Any calls**, failed ones among them, leave no block open and the parser at a token that is not
after the first end of the source. The next call goes on from there, not back, and a statement takes
a token at least, however many blocks are open. Loops and recursion end: unfolded more often than
there are tokens, they never come to what would be next. No answer depends on what stands after the
first end of the source, so nothing there is looked at. -/
theorem calls_stay_before_end {tokens : List Token} (cap : Int)
    (h : tokens.getLast?.map (·.kind) = some .endOfFile) :
    ∃ start, ofTokens? tokens cap = some start ∧ ∀ calls : List Call,
      let p := start.after calls
      p.depth = 0 ∧ p.index ≤ firstEnd tokens ∧ tokens[p.index]? = some p.current ∧
        (∀ call, p.index ≤ (p.ask call).2.index) ∧
        (∀ d,
          let inner : Parser := { p with depth := d }
          (∀ s, (Parse.statement Parse.blockHere inner).1 = .ok s →
            p.index < (Parse.statement Parse.blockHere inner).2.index) ∧
          ∀ n, tokens.length < n → EndsWithin n inner) ∧
        ∀ tokens' start', toEnd tokens' = toEnd tokens → ofTokens? tokens' cap = some start' →
          ∀ call, ((start'.after calls).ask call).1 = (p.ask call).1 := by
  obtain ⟨start, hstart⟩ := exists_start cap h
  have hends := seesEnd_of_ofTokens? hstart
  obtain ⟨rfl, hindex, hdepth, hcap⟩ := Program.start_of_ofTokens? hstart
  refine ⟨start, hstart, fun calls => ?_⟩
  intro p
  obtain ⟨hreaches, hpeers⟩ := steady_after (.refl hends) calls
  have hsight : p.SeesEnd := hpeers.ends
  refine ⟨hreaches.depth.trans hdepth, hreaches.index_le_firstEnd hindex,
    hreaches.getElem?_index hindex, fun call => ?_, fun d => ⟨fun s hs => ?_, fun n hn => ?_⟩, ?_⟩
  · exact (steady_ask (.refl hsight) call).reaches.index_le
  · have hinner : ({ p with depth := d } : Parser).Peers { p with depth := d } := .refl hsight
    exact (Parse.agree_statement hinner fun p' _ _ => Parse.rulesAgree_blockHere p').advances s hs
  · refine SeesEnd.endsWithin hsight (Nat.lt_of_le_of_lt ?_ hn)
    have hleft := hreaches.length_visible
    have hall : start.visible.length ≤ start.tokens.length := (List.take_sublist _ _).length_le
    change (start.after calls).visible.length ≤ _
    omega
  · intro tokens' start' hsame hstart' call
    obtain ⟨rfl, hindex', hdepth', hcap'⟩ := Program.start_of_ofTokens? hstart'
    have hstarts : start.Peers start' := ⟨hends, hsame, hindex'.trans hindex.symm,
      hdepth'.trans hdepth.symm, hcap'.trans hcap.symm⟩
    exact (steady_ask (steady_after hstarts calls).2 call).same

/-- A statement fails with two blocks open. What comes after it is read with none open, and no token
after the first end of the source makes a difference to it. -/
theorem calls_stay_before_end_reentered :
    let sino : Token := ⟨.keyword .sino, .text "sino", 3, 1⟩
    let shared : List Token :=
      [⟨.number, .number 2, 1, 9⟩, ⟨.keyword .veces, .text "veces", 1, 11⟩,
        ⟨.openBrace, .text "\x7b", 1, 17⟩, ⟨.keyword .repetir, .text "repetir", 2, 1⟩,
        ⟨.number, .text "3", 2, 9⟩, ⟨.keyword .veces, .nothing, 2, 11⟩,
        ⟨.openBrace, .text "\x7b", 2, 17⟩, sino, ⟨.command .clear, .text "Limpiar", 3, 6⟩,
        ⟨.endOfFile, .nothing, 4, 1⟩]
    let hidden : List Token := [⟨.closeBrace, .nothing, 5, 1⟩, ⟨.endOfFile, .nothing, 6, 1⟩]
    let head : Token := ⟨.keyword .repetir, .text "repetir", 1, 1⟩
    let tokens := head :: (shared ++ hidden)
    let start : Parser := ⟨head, shared ++ hidden, 0, 0, 2⟩
    let start' : Parser := ⟨head, shared, 0, 0, 2⟩
    let calls : List Call := [.statement, .advance]
    let p : Parser :=
      ⟨⟨.command .clear, .text "Limpiar", 3, 6⟩, ⟨.endOfFile, .nothing, 4, 1⟩ :: hidden, 9, 0, 2⟩
    let inner : Parser := { p with depth := 1 }
    tokens.getLast?.map (·.kind) = some .endOfFile ∧
      ((start.ask .statement).1 = .fault (.grammar ⟨.notAnInstruction, sino, 3, some 1⟩) ∧
        start.after calls = p ∧ p.depth = 0) ∧
      ((Parse.statement Parse.blockHere inner).1 = .ok (.command .clear 3) ∧
        p.index < (Parse.statement Parse.blockHere inner).2.index) ∧
      (tokens.length < 14 ∧ EndsWithin 14 inner) ∧
      toEnd (head :: shared) = toEnd tokens ∧
        ofTokens? (head :: shared) 2 = some start' ∧
        ((start'.after calls).ask .statements).1 = (p.ask .statements).1 := by
  intro sino shared hidden head tokens start start' calls p inner
  have hlast : tokens.getLast?.map (·.kind) = some .endOfFile := rfl
  have hfault : (start.ask .statement).1 =
      .fault (.grammar ⟨.notAnInstruction, sino, 3, some 1⟩) := by cbv
  have hp : start.after calls = p := by cbv
  have hok : (Parse.statement Parse.blockHere inner).1 = .ok (.command .clear 3) := rfl
  have hsame : toEnd (head :: shared) = toEnd tokens := rfl
  have hstart' : ofTokens? (head :: shared) 2 = some start' := rfl
  obtain ⟨s, hs, hcalls⟩ := calls_stay_before_end 2 hlast
  obtain rfl : start = s := Option.some.inj hs
  have hcalled := hcalls calls
  rw [hp] at hcalled
  obtain ⟨hdepth, -, -, -, hinner, halike⟩ := hcalled
  obtain ⟨htakes, hends⟩ := hinner 1
  refine ⟨hlast, ⟨hfault, hp, hdepth⟩, ⟨hok, htakes _ hok⟩, ?_, hsame, hstart', ?_⟩
  · exact ⟨by decide, hends 14 (by decide)⟩
  · exact halike _ start' hsame hstart' .statements

end Trazo.Parser
