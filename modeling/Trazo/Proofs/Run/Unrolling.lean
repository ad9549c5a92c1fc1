import Mathlib.Logic.Relation
import Trazo.Proofs.Board.Cells
import Trazo.Proofs.Limits.Conservative

/-!
A loop and the copies of its body.

Where a loop stands, copies of its body may stand instead, one for each pass: at any depth, in the
main block or in a procedure, which may be live many times over. A run cannot tell, as long as
nobody asks it to stop; for the loop is a statement of its own, and a stop is heard before every
statement. Runs are compared by what their programs mean, which knows nothing of frames or of inert
loops.
-/

namespace Trazo

/-! ### One loop in its place -/

/-- The second block is the first with one loop replaced by as many copies of its body as it makes
passes, which are at most `limit`. -/
inductive Unrolls (limit : Nat) : Block → Block → Prop
  | here {n : Nat} {body rest : Block} {line : Int} (hn : n ≤ limit) :
      Unrolls limit (.loop n body line :: rest) ((List.replicate n body).flatten ++ rest)
  | later (s : Statement) {r r' : Block} (h : Unrolls limit r r') :
      Unrolls limit (s :: r) (s :: r')
  | loop {count : Int} {b b' rest : Block} {line : Int} (h : Unrolls limit b b') :
      Unrolls limit (.loop count b line :: rest) (.loop count b' line :: rest)
  | yes {q : Sensor} {b b' rest : Block} {no : Option Block} {line : Int}
      (h : Unrolls limit b b') :
      Unrolls limit (.branch q b no line :: rest) (.branch q b' no line :: rest)
  | no {q : Sensor} {yes b b' rest : Block} {line : Int} (h : Unrolls limit b b') :
      Unrolls limit (.branch q yes (some b) line :: rest) (.branch q yes (some b') line :: rest)

/-- The second program is the first with one loop unrolled, in the main block or in a procedure. -/
inductive Program.Unrolls (limit : Nat) : Program → Program → Prop
  | main {b b' : Block} {line : Int} {procedures : List Procedure} (h : Trazo.Unrolls limit b b') :
      Unrolls limit ⟨some ⟨b, line⟩, procedures⟩ ⟨some ⟨b', line⟩, procedures⟩
  | procedure {main : Option MainBlock} {before after : List Procedure} {name : String}
      {b b' : Block} {line : Int} (h : Trazo.Unrolls limit b b') :
      Unrolls limit ⟨main, before ++ ⟨name, b, line⟩ :: after⟩
        ⟨main, before ++ ⟨name, b', line⟩ :: after⟩

/-- The blocks are the same, or one loop has been unrolled in the second. -/
abbrev MayUnroll (limit : Nat) : Block → Block → Prop := Relation.ReflGen (Unrolls limit)

variable {limit : Nat}

/-- Statements of one kind whose blocks are the same but for a loop that has been unrolled. -/
inductive Statement.Alike (limit : Nat) : Statement → Statement → Prop
  | command (c : Command) (line : Int) : Alike limit (.command c line) (.command c line)
  | call (name : String) (line : Int) : Alike limit (.call name line) (.call name line)
  | foreign (kind : String) (line : Int) : Alike limit (.foreign kind line) (.foreign kind line)
  | loop {count : Int} {b b' : Block} {line : Int} (h : MayUnroll limit b b') :
      Alike limit (.loop count b line) (.loop count b' line)
  | branch {q : Sensor} {b b' : Block} {no no' : Option Block} {line : Int}
      (hyes : MayUnroll limit b b') (hno : Option.Rel (MayUnroll limit) no no') :
      Alike limit (.branch q b no line) (.branch q b' no' line)

lemma mayUnroll_refl (no : Option Block) : Option.Rel (MayUnroll limit) no no := by
  cases no with
  | none => exact .none
  | some b => exact .some .refl

lemma Statement.Alike.refl (s : Statement) : s.Alike limit s := by
  cases s with
  | command c line => exact .command c line
  | call name line => exact .call name line
  | foreign kind line => exact .foreign kind line
  | loop count body line => exact .loop .refl
  | branch q yes no line => exact .branch .refl (mayUnroll_refl no)

lemma Statement.Alike.line {s s' : Statement} (h : s.Alike limit s') : s'.line = s.line := by
  cases h <;> rfl

lemma mayUnroll_nil {b' : Block} (h : MayUnroll limit [] b') : b' = [] := by
  cases h with
  | refl => rfl
  | single h => cases h

/-- The first statement of a block stays, or is the loop that has been unrolled. -/
lemma mayUnroll_cons {s : Statement} {r b' : Block} (h : MayUnroll limit (s :: r) b') :
    (∃ s' r', b' = s' :: r' ∧ s.Alike limit s' ∧ MayUnroll limit r r') ∨
      ∃ (n : Nat) (body : Block) (line : Int), s = .loop n body line ∧ n ≤ limit ∧
        b' = (List.replicate n body).flatten ++ r := by
  cases h with
  | refl => exact .inl ⟨s, r, rfl, .refl s, .refl⟩
  | single h =>
    cases h with
    | here hn => exact .inr ⟨_, _, _, rfl, hn, rfl⟩
    | later s h => exact .inl ⟨s, _, rfl, .refl s, .single h⟩
    | loop h => exact .inl ⟨_, r, rfl, .loop (.single h), .refl⟩
    | yes h => exact .inl ⟨_, r, rfl, .branch (.single h) (mayUnroll_refl _), .refl⟩
    | no h => exact .inl ⟨_, r, rfl, .branch .refl (.some (.single h)), .refl⟩

/-- Unrolling a loop changes nothing but a block. -/
lemma Program.Unrolls.alike {program program' : Program} (h : program.Unrolls limit program') :
    program.Alike (MayUnroll limit) program' := by
  have hrefl : ∀ ps : List Procedure, List.Forall₂ (Procedure.Alike (MayUnroll limit)) ps ps :=
    fun ps => List.forall₂_same.mpr fun p _ => ⟨rfl, rfl, .refl⟩
  cases h with
  | main h => exact ⟨.some ⟨rfl, .single h⟩, hrefl _⟩
  | @procedure main before after name b b' line h =>
    refine ⟨?_, List.rel_append (hrefl before) (.cons ⟨rfl, rfl, .single h⟩ (hrefl after))⟩
    cases main with
    | none => exact .none
    | some main => exact .some ⟨rfl, .refl⟩

namespace Run

variable {σ ε : Type} {R : Rules σ ε} {a b : Block} {w v : World σ} {o : Outcome σ ε}

/-! ### Copies of a block -/

lemma leads_append_done (ha : Leads R (.block a) w (.done v)) (hb : Leads R (.block b) v o) :
    Leads R (.block (a ++ b)) w o := by
  induction a generalizing w with
  | nil =>
    cases ha
    exact hb
  | cons s a ih =>
    cases ha with
    | cons hs hr => exact .cons hs (ih hr)

lemma leads_append_fail {f : Failure ε} (ha : Leads R (.block a) w (.fail f v)) (b : Block) :
    Leads R (.block (a ++ b)) w (.fail f v) := by
  induction a generalizing w with
  | nil => cases ha
  | cons s a ih =>
    cases ha with
    | cons hs hr => exact .cons hs (ih hr)
    | consFail hs => exact .consFail hs

/-- **Passes** through a block do what copies of it do. -/
lemma leads_copies {n : Nat} (h : Leads R (.passes n b) w o) :
    Leads R (.block (List.replicate n b).flatten) w o := by
  induction n generalizing w with
  | zero =>
    cases h
    exact .nil
  | succ n ih =>
    rw [List.replicate_succ, List.flatten_cons]
    cases h with
    | pass hb hr => exact leads_append_done hb (ih hr)
    | passFail hb => exact leads_append_fail hb _

/-- A loop within the limit does what the copies of its body do. -/
lemma Leads.unrolled {n : Nat} {line : Int} (h : Leads R (.statement (.loop n b line)) w o)
    (hw : w.cancelled = false) (hn : n ≤ R.settings.maxRepeat) :
    Leads R (.block (List.replicate n b).flatten) w o := by
  cases h with
  | cancelled hc => simp [hw] at hc
  | overLimit _ hlimit => omega
  | loop _ _ h => exact leads_copies h
  | exhausted hs => simp [isCounted] at hs
  | step hs => simp [isCounted] at hs

/-! ### Runs that are not asked to stop -/

/-- The observer never asks for a stop. -/
def Observer.Calm (observe : Observer σ ε) : Prop := ∀ st b, (observe st b).cancels = false

/-- A world in which the observer is shown the board stays free of stops. -/
lemma World.cancelled_present (hcalm : R.observe.Calm) (w : World σ) :
    (w.present R).world.cancelled = w.cancelled := by
  unfold World.present
  dsimp only
  have hquiet := hcalm w.observer w.board
  split <;> simp [Outcome.world, hquiet]

/-- Nobody asks for a stop in a task with such an observer. -/
lemma Leads.calm {t : Task} (hcalm : R.observe.Calm) (h : Leads R t w o)
    (hw : w.cancelled = false) : o.world.cancelled = false := by
  induction h with
  | cancelled | overLimit | exhausted | refused | unknown | tooDeep | neither | blind | foreign |
    nil | noPass => exact hw
  | command hb => exact (World.cancelled_present hcalm _).trans hw
  | @call name line w p o _ _ _ ih =>
    have ho := ih hw
    cases o <;> exact ho
  | loop _ _ _ ih | step _ _ _ _ ih | yes _ _ ih | no _ _ ih => exact ih hw
  | consFail _ ih | passFail _ ih => exact ih hw
  | cons _ _ ihs ihr | pass _ _ ihs ihr => exact ihr (ihs hw)

/-! ### Alike tasks have the same outcome -/

/-- Tasks that are the same but for a loop that has been unrolled. -/
inductive Task.Alike (limit : Nat) : Task → Task → Prop
  | statement {s s' : Statement} (h : s.Alike limit s') : Alike limit (.statement s) (.statement s')
  | counted {s s' : Statement} (h : s.Alike limit s') : Alike limit (.counted s) (.counted s')
  | block {b b' : Block} (h : MayUnroll limit b b') : Alike limit (.block b) (.block b')
  | passes (n : Nat) {b b' : Block} (h : MayUnroll limit b b') :
      Alike limit (.passes n b) (.passes n b')

lemma isCounted_eq_of_alike {s s' : Statement} (h : s.Alike limit s') :
    isCounted s' = isCounted s := by
  cases h <;> rfl

/-- **Unrolling is a congruence**: under rules whose procedures are alike, alike tasks have the same
outcome, as long as nobody asks for a stop. -/
theorem Leads.alike {ps : List Procedure} {t t' : Task}
    (hps : List.Forall₂ (Procedure.Alike (MayUnroll R.settings.maxRepeat)) R.procedures ps)
    (hcalm : R.observe.Calm) (h : Leads R t w o) (hw : w.cancelled = false)
    (ht : t.Alike R.settings.maxRepeat t') : Leads { R with procedures := ps } t' w o := by
  induction h generalizing t' with
  | cancelled hc => simp [hw] at hc
  | overLimit hc hn =>
    cases ht with
    | statement h =>
      cases h
      exact .overLimit hc hn
  | loop hc hn _ ih =>
    cases ht with
    | statement h =>
      cases h with
      | loop hb => exact .loop hc hn (ih hw (.passes _ hb))
  | exhausted hs hc hn =>
    cases ht with
    | statement h =>
      rw [← h.line]
      exact .exhausted ((isCounted_eq_of_alike h).trans hs) hc hn
  | step hs hc hn _ ih =>
    cases ht with
    | statement h =>
      exact .step ((isCounted_eq_of_alike h).trans hs) hc hn (ih hw (.counted h))
  | command hb =>
    cases ht with
    | counted h =>
      cases h
      exact .command hb
  | refused hb =>
    cases ht with
    | counted h =>
      cases h
      exact .refused hb
  | unknown hp =>
    cases ht with
    | counted h =>
      cases h
      rw [← Procedure.names_alike hps]
      exact .unknown (Procedure.find?_eq_none_of_alike hps hp)
  | tooDeep hp hd =>
    cases ht with
    | counted h =>
      cases h
      obtain ⟨p', hp', -⟩ := Procedure.exists_find?_of_alike hps hp
      exact .tooDeep hp' hd
  | call hp hd _ ih =>
    cases ht with
    | counted h =>
      cases h
      obtain ⟨p', hp', halike⟩ := Procedure.exists_find?_of_alike hps hp
      exact .call hp' hd (ih hw (.block halike.body))
  | yes hq _ ih =>
    cases ht with
    | counted h =>
      cases h with
      | branch hyes hno => exact .yes hq (ih hw (.block hyes))
  | no hq _ ih =>
    cases ht with
    | counted h =>
      cases h with
      | branch hyes hno =>
        cases hno with
        | some hno => exact .no hq (ih hw (.block hno))
  | neither hq =>
    cases ht with
    | counted h =>
      cases h with
      | branch hyes hno =>
        cases hno
        exact .neither hq
  | blind hq =>
    cases ht with
    | counted h =>
      cases h
      exact .blind hq
  | foreign =>
    cases ht with
    | counted h =>
      cases h
      exact .foreign
  | nil =>
    cases ht with
    | block h =>
      obtain rfl := mayUnroll_nil h
      exact .nil
  | cons hs _ ihs ihr =>
    cases ht with
    | block h =>
      have hv := hs.calm hcalm hw
      obtain ⟨s', r', rfl, hs', hr'⟩ | ⟨n, body, line, rfl, hn, rfl⟩ := mayUnroll_cons h
      · exact .cons (ihs hw (.statement hs')) (ihr hv (.block hr'))
      -- the loop keeps its outcome in the other program, and so do the copies there
      · have hcopies := (ihs hw (.statement (.refl _))).unrolled hw hn
        exact leads_append_done hcopies (ihr hv (.block .refl))
  | consFail _ ihs =>
    cases ht with
    | block h =>
      obtain ⟨s', r', rfl, hs', -⟩ | ⟨n, body, line, rfl, hn, rfl⟩ := mayUnroll_cons h
      · exact .consFail (ihs hw (.statement hs'))
      · have hcopies := (ihs hw (.statement (.refl _))).unrolled hw hn
        exact leads_append_fail hcopies _
  | noPass =>
    cases ht
    exact .noPass
  | pass hb _ ihb ihr =>
    cases ht with
    | passes _ h => exact .pass (ihb hw (.block h)) (ihr (hb.calm hcalm hw) (.passes _ h))
  | passFail _ ihb =>
    cases ht with
    | passes _ h => exact .passFail (ihb hw (.block h))

/-! ### Whole programs -/

namespace Executor

/-- Programs that are alike have executors that are alike, or are refused for the same reason. -/
lemma create_alike {S : Block → Block → Prop} {program program' : Program}
    (h : program.Alike S program') (speed : Value) (s : Settings) :
    (create program' speed s : Except (Failure ε) _) =
      (create program speed s).map fun e =>
        ({ e.1 with program := program', table := program'.procedures }, e.2) := by
  have hmain : program'.main.isNone = program.main.isNone := by
    have hrel := h.main
    generalize program.main = main, program'.main = main' at hrel
    cases hrel <;> rfl
  unfold create
  rw [hmain]
  cases program.main.isNone with
  | true => rfl
  | false =>
    cases Speed.resolve s.speed speed with
    | error f => rfl
    | ok chosen =>
      rcases Procedure.table_alike h.procedures with ⟨ht, ht'⟩ | ⟨d, d', ht, ht', hd⟩
      · rw [ht, ht']
        rfl
      · rw [ht, ht']
        simp only [Except.mapError, hd]
        rfl

end Executor

/-- The account of a program that is run by an executor made for it, or why none can be made. -/
def accountOf (program : Program) (speed : Value) (s : Settings) (observe : Observer σ ε) (st : σ)
    (board : Board) : Except (Failure ε) (Account σ ε) := do
  let (e, logs) ← Executor.create program speed s
  pure (e.account (e.paced observe) st board logs)

end Run

end Trazo
