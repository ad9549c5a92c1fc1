import Trazo.CommandLine.Perform
import Trazo.Proofs.Run.Blame
import Trazo.Proofs.Session.Lifecycle

/-!
Valid programs, as they are told from others by a check and by a run.

Both compile the source text, and a run makes an executor of the program besides. The executor has
demands of its own, but what has been compiled meets them. So a check and a run reject the same
texts with the same words.
-/

namespace Trazo

lemma Report.failure_inj {a b : String} : failure a = failure b ↔ a = b := by
  simp [failure, errLine]

namespace CommandLine

open Session (compile)

variable {i : Invocation} {s : Settings} {text : String}

lemma check_of_error {d : Diagnostic}
    (h : (compile s text : Except (Failure Empty) _) = .error (.diagnostic d)) :
    check i s text = .ok { report := Report.failure d.render, ending := .returned 1 } := by
  rw [check, h]

lemma check_of_unwritable {d : Option Diagnostic}
    (h : (compile s text : Except (Failure Empty) _) = .error (.unwritable d)) :
    check i s text = .error (.escape (.failure (.unwritable d))) := by
  rw [check, h]

lemma check_of_ok {p : Program} (h : (compile s text : Except (Failure Empty) _) = .ok p) :
    ∃ report, check i s text = .ok { report := report, ending := .returned 0 } := by
  rw [check, h]
  exact ⟨_, rfl⟩

variable {σ ε : Type}

/-- **A check and a run agree** on what a valid program is. A check says what is wrong with a source
text exactly if a run with it fails in these words before its first step and leaves the board alone.
It finds nothing wrong exactly if a run takes the board to an end of its own. -/
theorem check_agrees_with_run (i : Invocation) (s : Session) (hp : s.board.phase = .editing)
    (text : String) {speed : Value} {chosen : Speed × List Log.Record}
    (hspeed : Speed.resolve s.settings.speed speed = .ok chosen)
    {observe : Session.Observer σ ε} (hw : observe.Watches) (st : σ) :
    let after := s.run text speed observe st
    (∀ words,
      (∃ o, check i s.settings text = .ok o ∧ o.ending = .returned 1 ∧
        o.report = Report.failure words) ↔
      ∃ r, after.result = .ok r ∧ r.success = false ∧ r.steps = 0 ∧ r.message = words ∧
        after.session.board.phase = .editing ∧ after.session.board.snapshot = s.board.snapshot) ∧
    ((∃ o, check i s.settings text = .ok o ∧ o.ending = .returned 0) ↔
      after.session.board.phase = .finished ∨ after.session.board.phase = .failed) := by
  intro after
  rcases Session.compile_cases s.settings text with
    ⟨-, ⟨d, hcompile, -⟩ | ⟨⟨d, hcompile⟩, -⟩⟩ | ⟨-, p, main, hcompile, hmain, hnames, -⟩
  · obtain ⟨hresult, hsession⟩ : after.result = _ ∧ after.session = _ :=
      Session.run_of_rejected hp (Session.prepare_of_compile_error (hcompile ε))
    have hboard : after.session.board = s.board := by
      rw [hsession]
      rfl
    rw [check_of_error (hcompile Empty), hresult, hboard]
    refine ⟨fun words => ⟨?_, ?_⟩, ?_⟩
    · rintro ⟨_, ⟨⟩, -, hwords⟩
      exact ⟨_, rfl, rfl, rfl, Report.failure_inj.mp hwords, hp, rfl⟩
    · rintro ⟨_, ⟨⟩, -, -, hwords, -⟩
      exact ⟨_, rfl, rfl, Report.failure_inj.mpr hwords⟩
    · simp [hp]
  · -- neither the check nor the run has a result
    obtain ⟨hresult, hsession⟩ : after.result = _ ∧ after.session = _ :=
      Session.run_of_abandoned hp (Session.prepare_of_compile_error (hcompile ε)) rfl
    have hphase : after.session.board.phase = .editing := by
      rw [hsession]
      exact hp
    rw [check_of_unwritable (hcompile Empty), hresult]
    simp [hphase]
  · have hsession : after.session = _ :=
      (Session.run_of_executed hw hp
        (Session.prepare_of_compile (hcompile ε) hmain hnames hspeed)).2
    have hphase : after.session.board.phase = .finished ∨ after.session.board.phase = .failed := by
      rw [hsession, Session.phase_closed, Session.lastPhase]
      split
      · exact .inl rfl
      · exact .inr rfl
    obtain ⟨report, hcheck⟩ := check_of_ok (i := i) (hcompile Empty)
    rw [hcheck]
    refine ⟨fun words => ⟨?_, ?_⟩, ?_⟩
    · rintro ⟨_, ⟨⟩, hending, -⟩
      cases hending
    · rintro ⟨-, -, -, -, -, hediting, -⟩
      simp [hediting] at hphase
    · exact ⟨fun _ => hphase, fun _ => ⟨_, rfl, rfl⟩⟩

/-- A program that falls off the board is valid; one whose last brace is missing is not. -/
theorem check_agrees_with_run_edge :
    let i : Invocation := ⟨.check, "a.qd", {}⟩
    let s : Session := { board := ⟨1, 1, 1, 1, .empty 1 1, .origin, .editing⟩, settings := {} }
    let observe := Session.Observer.silent Unit String
    let after text := s.run text .null observe ()
    let valid := "programa\x7bMoverArriba\x7d"
    let unclosed := "programa\x7b"
    observe.Watches ∧
      (∃ o, check i s.settings valid = .ok o ∧ o.ending = .returned 0) ∧
      ((after valid).session.board.phase = .finished ∨
        (after valid).session.board.phase = .failed) ∧
      ∃ words,
        (∃ o, check i s.settings unclosed = .ok o ∧ o.ending = .returned 1 ∧
          o.report = Report.failure words) ∧
        ∃ r, (after unclosed).result = .ok r ∧ r.success = false ∧ r.steps = 0 ∧
          r.message = words ∧ (after unclosed).session.board.phase = .editing ∧
          (after unclosed).session.board.snapshot = s.board.snapshot := by
  intro i s observe after valid unclosed
  have hw : observe.Watches := fun _ _ => rfl
  have hspeed : Speed.resolve s.settings.speed .null = .ok (.normal, []) := rfl
  have hvalid : ∃ o, check i {} "programa\x7bMoverArriba\x7d" = .ok o ∧ o.ending = .returned 0 := by
    unfold check compile Program.ofSource
    conv in tokenize _ _ => cbv
    exact ⟨_, rfl, rfl⟩
  have hunclosed : ∃ words o, check i {} "programa\x7b" = .ok o ∧ o.ending = .returned 1 ∧
      o.report = Report.failure words := by
    unfold check compile Program.ofSource
    conv in tokenize _ _ => cbv
    exact ⟨_, _, rfl, rfl, rfl⟩
  obtain ⟨words, hwords⟩ := hunclosed
  refine ⟨hw, hvalid, ?_, words, hwords, ?_⟩
  · exact (check_agrees_with_run i s rfl valid hspeed hw ()).2.mp hvalid
  · exact ((check_agrees_with_run i s rfl unclosed hspeed hw ()).1 words).mp hwords

end CommandLine

end Trazo
