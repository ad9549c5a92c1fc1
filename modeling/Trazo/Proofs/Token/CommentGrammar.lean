import Trazo.Proofs.Token.Comment
import Trazo.Proofs.Token.Place

/-!
The grammar of comments, and what the scanner makes of a text that opens one.

A comment stands between its own two signs, and what is inside is a sequence of comments and of
characters at which neither sign starts. The scanner only counts how many comments are open. It
passes a comment exactly where the grammar has one, and there is never a choice between two.
-/

namespace Trazo.Lexer

mutual

/-- The opening sign, what is inside, and the closing sign. -/
inductive Comment : List Char → Prop
  | mk {s : List Char} (hs : Inside s) : Comment (['/', '*'] ++ s ++ ['*', '/'])

/-- What stands before the closing sign of a comment: comments, and characters at which neither sign
starts. The last of them may not make up a sign with the closing one. -/
inductive Inside : List Char → Prop
  | nil : Inside []
  | character {c : Char} {r : List Char} (ho : ¬ ['/', '*'] <+: c :: (r ++ ['*', '/']))
      (hc : ¬ ['*', '/'] <+: c :: (r ++ ['*', '/'])) (hr : Inside r) : Inside (c :: r)
  | comment {s r : List Char} (hs : Comment s) (hr : Inside r) : Inside (s ++ r)

end

variable {s s' cs : List Char}

/-! ### Comments and their bodies -/

mutual

lemma Comment.exists_body {s : List Char} : Comment s → ∃ r, s = '/' :: '*' :: r ∧ Body r
  | .mk hs => ⟨_, rfl, hs.body⟩

lemma Inside.body {s : List Char} : Inside s → Body (s ++ ['*', '/'])
  | .nil => .close
  | .character ho hc hr => .plain ho hc hr.body
  | .comment hs hr => by
    obtain ⟨r, rfl, hb⟩ := hs.exists_body
    simpa using Body.comment hb hr.body

end

lemma Body.exists_inside (h : Body cs) : ∃ s, cs = s ++ ['*', '/'] ∧ Inside s := by
  induction h with
  | close => exact ⟨[], rfl, .nil⟩
  | @plain c r ho hc _ ih =>
    obtain ⟨s, rfl, hs⟩ := ih
    exact ⟨c :: s, rfl, .character ho hc hs⟩
  | comment _ _ ihs ihr =>
    obtain ⟨s, rfl, hs⟩ := ihs
    obtain ⟨r, rfl, hr⟩ := ihr
    exact ⟨['/', '*'] ++ s ++ ['*', '/'] ++ r, by simp, .comment (.mk hs) hr⟩

lemma comment_iff_body : Comment s ↔ ∃ r, s = '/' :: '*' :: r ∧ Body r := by
  refine ⟨Comment.exists_body, ?_⟩
  rintro ⟨r, rfl, hr⟩
  obtain ⟨t, rfl, ht⟩ := hr.exists_inside
  exact .mk ht

/-! ### One comment at most -/

/-- Of the texts that start a text, at most one is the rest of a comment. -/
lemma Body.eq_of_prefix (h : Body s) (h' : Body s') (hp : s <+: cs) (hp' : s' <+: cs) : s = s' := by
  obtain ⟨r, rfl⟩ := hp
  obtain ⟨r', he⟩ := hp'
  have hs : commentLength 0 0 (s ++ r) = some s.length :=
    commentLength_eq_some_iff.mpr ⟨s, r, rfl, h, rfl⟩
  have hs' : commentLength 0 0 (s ++ r) = some s'.length :=
    commentLength_eq_some_iff.mpr ⟨s', r', he.symm, h', rfl⟩
  exact (List.append_inj he (Option.some.inj (hs'.symm.trans hs))).1.symm

lemma Comment.eq_of_prefix (h : Comment s) (h' : Comment s') (hp : s <+: cs) (hp' : s' <+: cs) :
    s = s' := by
  obtain ⟨r, rfl, hr⟩ := h.exists_body
  obtain ⟨r', rfl, hr'⟩ := h'.exists_body
  obtain ⟨t, rfl⟩ := hp
  rw [hr.eq_of_prefix hr' (List.prefix_append r t) (by simpa using hp')]

/-! ### The scanner -/

lemma forward_start (text rest : List Char) :
    (Cursor.start (text ++ rest)).forward text.length = .behind text rest :=
  Cursor.forward_behind [] text rest

lemma skipComment_behind_of_body {text tail : List Char} (h : Body s) :
    skipComment (.behind text ('/' :: '*' :: (s ++ tail))) =
      (.ok (), .behind (text ++ '/' :: '*' :: s) tail) := by
  have hsign : Cursor.forward 2 (.behind text ('/' :: '*' :: (s ++ tail))) =
      .behind (text ++ ['/', '*']) (s ++ tail) :=
    Cursor.forward_behind text ['/', '*'] (s ++ tail)
  have hlength : commentLength 0 0 (s ++ tail) = some s.length :=
    commentLength_eq_some_iff.mpr ⟨s, tail, rfl, h, rfl⟩
  simp only [skipComment, hsign, Cursor.rest_behind, hlength, Cursor.forward_behind]
  simp

lemma skipComment_of_not_body {c : Cursor} {r : List Char} (hc : c.rest = '/' :: '*' :: r)
    (h : ∀ s, s <+: r → ¬ Body s) :
    (skipComment c).1 = .error (fault c .unterminatedComment) := by
  have hlength : commentLength 0 0 r = none :=
    commentLength_eq_none_iff.mpr fun s rest he => h s ⟨rest, he.symm⟩
  simp [skipComment, hc, hlength]

/-- Some comment starts the text. -/
def Commented (cs : List Char) : Prop := ∃ s, s <+: cs ∧ Comment s

lemma commented_iff_body {r : List Char} :
    Commented ('/' :: '*' :: r) ↔ ∃ s, s <+: r ∧ Body s := by
  constructor
  · rintro ⟨t, ht, hc⟩
    obtain ⟨s, rfl, hs⟩ := hc.exists_body
    exact ⟨s, by simpa using ht, hs⟩
  · rintro ⟨s, hp, hs⟩
    exact ⟨'/' :: '*' :: s, by simpa using hp, comment_iff_body.mpr ⟨s, rfl, hs⟩⟩

/-- **Comments are passed whole.** Where a text has the opening sign, the scanner comes through
exactly if a comment of the grammar starts there. There is then only one such comment, and the
scanner stops right behind it. Otherwise the fault is an unterminated comment, at the place of the
opening sign. -/
theorem skipComment_eq_ok_iff_commented (source : String) (n : Nat)
    (h : ['/', '*'] <+: source.toList.drop n) :
    let start := Cursor.start source.toList
    let rest := source.toList.drop n
    ((skipComment (start.forward n)).1 = .ok () ↔ Commented rest) ∧
      (∀ s, s <+: rest → Comment s →
        skipComment (start.forward n) = (.ok (), start.forward (n + s.length)) ∧
          ∀ s', s' <+: rest → Comment s' → s' = s) ∧
      (¬ Commented rest → ∃ f, (skipComment (start.forward n)).1 = .error f ∧
        f.cause.message = "Unterminated comment" ∧
        f.line = lineBehind (source.toList.take n) ∧
        f.column = columnBehind (source.toList.take n)) := by
  intro start rest
  generalize htext : source.toList.take n = text
  have hsource : source.toList = text ++ rest := by rw [← htext, List.take_append_drop]
  have hn : text.length = n := by
    have hlength := h.length_le
    rw [List.length_drop, List.length_cons] at hlength
    rw [← htext, List.length_take]
    omega
  obtain ⟨r, hr⟩ := h
  have hrest : rest = '/' :: '*' :: r := hr.symm
  have hstart : start.forward n = .behind text rest := by
    rw [← hn, ← forward_start text rest, ← hsource]
  have hpass : ∀ s, s <+: rest → Comment s →
      skipComment (start.forward n) = (.ok (), start.forward (n + s.length)) := by
    rintro s ⟨tail, hs⟩ hc
    obtain ⟨t, rfl, ht⟩ := hc.exists_body
    have hstop := forward_start (text ++ '/' :: '*' :: t) tail
    rw [List.append_assoc, hs, ← hsource, List.length_append, hn] at hstop
    rw [hstart, hstop, ← hs]
    exact skipComment_behind_of_body ht
  have hfail : ¬ Commented rest →
      (skipComment (start.forward n)).1 =
        .error (fault (.behind text rest) .unterminatedComment) := by
    intro hnot
    rw [hrest, commented_iff_body] at hnot
    rw [hstart]
    exact skipComment_of_not_body hrest fun s hs hb => hnot ⟨s, hs, hb⟩
  refine ⟨⟨fun hok => ?_, ?_⟩, fun s hs hc => ⟨hpass s hs hc, ?_⟩, fun hnot => ?_⟩
  · by_contra hnot
    rw [hfail hnot] at hok
    cases hok
  · rintro ⟨s, hs, hc⟩
    rw [hpass s hs hc]
  · exact fun s' hs' hc' => hc'.eq_of_prefix hc hs' hs
  · exact ⟨_, hfail hnot, rfl, rfl, rfl⟩

/-- Signs that overlap: the comment is closed by the second star and slash, and the third pair is
left over. -/
theorem skipComment_eq_ok_iff_commented_overlap :
    let source := "\n/*/**/*/*/"
    ['/', '*'] <+: source.toList.drop 1 ∧ Comment ['/', '*', '/', '*', '*', '/', '*', '/'] ∧
      skipComment ((Cursor.start source.toList).forward 1) =
        (.ok (), (Cursor.start source.toList).forward 9) := by
  intro source
  have hopen : ['/', '*'] <+: source.toList.drop 1 := by decide
  have hcomment : Comment ['/', '*', '/', '*', '*', '/', '*', '/'] :=
    .mk (.comment (.mk .nil) .nil)
  exact ⟨hopen, hcomment,
    ((skipComment_eq_ok_iff_commented source 1 hopen).2.1 _ (by decide) hcomment).1⟩

end Trazo.Lexer
