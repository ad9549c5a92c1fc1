import Mathlib.Data.List.TakeWhile
import Trazo.Proofs.Text.Numeral
import Trazo.Settings

/-!
What a selector of speeds selects.

A text selects by a name or by the numeral of a code, whatever white space is around it and whatever
the case of its letters. Of the characters that stand for digits not all are digits of a numeral,
and a text with such a sign is refused, where all else that selects nothing is only warned of.
-/

namespace Trazo

namespace Text

variable {s : String} {t cs : List Char} {c : Char}

/-! ### White space and case -/

/-- The text is `t`, but for white space around it and the case of its letters. -/
def Spells (s : String) (t : List Char) : Prop :=
  ∃ before core after, s.toList = before ++ (core ++ after) ∧
    (∀ c ∈ before, isBlank c = true) ∧ (∀ c ∈ after, isBlank c = true) ∧
    core.map Char.toLower = t

/-- A text without white space around it, in small letters. -/
def folded (s : String) : List Char := (trim s.toList).map Char.toLower

lemma toLower_of_isBlank (h : isBlank c = true) : c.toLower = c := by
  have hapart : ∀ r ∈ blankRanges, r.2 < 'A'.toNat ∨ 'Z'.toNat < r.1 := by decide
  simp only [isBlank, List.any_eq_true, Bool.and_eq_true, decide_eq_true_eq] at h
  obtain ⟨r, hr, hlow, hhigh⟩ := h
  have hc := hapart r hr
  refine dif_neg fun hupper => ?_
  have hA : 'A'.toNat ≤ c.toNat := hupper.1
  have hZ : c.toNat ≤ 'Z'.toNat := hupper.2
  omega

/-- What is around a text without white space is trimmed, and no more. -/
lemma trim_append {before core after : List Char} (hbefore : ∀ c ∈ before, isBlank c = true)
    (hcore : ∀ c ∈ core, isBlank c = false) (hafter : ∀ c ∈ after, isBlank c = true) :
    trim (before ++ (core ++ after)) = core := by
  rw [trim, trimBy, List.dropWhile_append_of_pos hbefore]
  cases core with
  | nil => simp [List.dropWhile_eq_nil_iff.mpr hafter]
  | cons c r =>
    have hfront : (c :: r ++ after).dropWhile isBlank = c :: r ++ after := by
      simp [hcore c (by simp)]
    have hback : (c :: r).reverse.dropWhile isBlank = (c :: r).reverse := by
      refine List.dropWhile_eq_self_iff.mpr fun hpos => ?_
      simpa using hcore _ (List.mem_reverse.mp (List.getElem_mem hpos))
    rw [hfront, List.reverse_append,
      List.dropWhile_append_of_pos fun c hc => hafter c (List.mem_reverse.mp hc), hback,
      List.reverse_reverse]

lemma spells_folded (s : String) : Spells s (folded s) := by
  -- `front` is the text from its first character on that is not blank
  generalize hfront : s.toList.dropWhile isBlank = front
  have hback : front = trim s.toList ++ (front.reverse.takeWhile isBlank).reverse := by
    rw [trim, trimBy, hfront, ← List.reverse_append, List.takeWhile_append_dropWhile,
      List.reverse_reverse]
  refine ⟨s.toList.takeWhile isBlank, trim s.toList, (front.reverse.takeWhile isBlank).reverse, ?_,
    List.all_eq_true.mp List.all_takeWhile, ?_, rfl⟩
  · rw [← hback, ← hfront, List.takeWhile_append_dropWhile]
  · exact fun c hc => List.all_eq_true.mp List.all_takeWhile c (List.mem_reverse.mp hc)

/-- A text without white space is spelled by one text only. -/
lemma spells_iff (ht : ∀ c ∈ t, isBlank c = false) : Spells s t ↔ folded s = t := by
  constructor
  · rintro ⟨before, core, after, hs, hbefore, hafter, rfl⟩
    have hcore : ∀ c ∈ core, isBlank c = false := by
      intro c hc
      cases hblank : isBlank c with
      | false => rfl
      | true =>
        have := ht c.toLower (List.mem_map_of_mem hc)
        rwa [toLower_of_isBlank hblank, hblank] at this
    rw [folded, hs, trim_append hbefore hcore hafter]
  · rintro rfl
    exact spells_folded s

end Text

namespace Speed

open Text (Spells Denotes folded isDigitLike)
open Text.Integer (Unreadable)

variable {default x : Speed} {s : String} {v : Value} {f : Text.Integer.Fault}

/-! ### What is selected -/

/-- The numbers that speeds are selected by. -/
def codes : List (Nat × Speed) := [(0, .instant), (1, .slow), (3, .normal), (7, .fast)]

/-- Nothing selects the default, a number the speed with this code, and a text the speed with this
name, or with the code that it is a numeral of. -/
inductive Selects (default : Speed) : Value → Speed → Prop
  | unset : Selects default .null default
  | code {n : Nat} {x : Speed} (h : (n, x) ∈ codes) : Selects default (.int n) x
  | name {s : String} {x : Speed} (h : Spells s x.name.toList) : Selects default (.text s) x
  | numeral {s : String} {t : List Char} {n : Nat} {x : Speed} (hs : Spells s t)
      (ht : Denotes t n) (h : (n, x) ∈ codes) : Selects default (.text s) x

/-- A text that is refused: only digits and signs for them, but not read as a number. -/
inductive Misread : Value → Text.Integer.Fault → Prop
  | text {s : String} {t : List Char} {f : Text.Integer.Fault} (hs : Spells s t)
      (ht : Unreadable t f) : Misread (.text s) f

/-! ### Names and codes -/

lemma ofName?_eq_some_iff : ofName? s = some x ↔ s = x.name := by
  constructor
  · intro h
    have hx := List.find?_some h
    exact (beq_iff_eq.mp hx).symm
  · rintro rfl
    cases x <;> decide

lemma name_injective : Function.Injective name := by
  intro x y h
  have hx := ofName?_eq_some_iff.mpr h
  rw [ofName?_eq_some_iff.mpr rfl] at hx
  exact Option.some.inj hx

lemma ofCode?_eq_some_iff {n : Int} : ofCode? n = some x ↔ ∃ k : Nat, n = k ∧ (k, x) ∈ codes := by
  constructor
  · intro h
    unfold ofCode? at h
    split at h
    · exact ⟨0, rfl, by simpa [codes] using h.symm⟩
    · exact ⟨1, rfl, by simpa [codes] using h.symm⟩
    · exact ⟨3, rfl, by simpa [codes] using h.symm⟩
    · exact ⟨7, rfl, by simpa [codes] using h.symm⟩
    · cases h
  · rintro ⟨k, rfl, h⟩
    simp only [codes, List.mem_cons, List.not_mem_nil, or_false, Prod.mk.injEq] at h
    rcases h with ⟨rfl, rfl⟩ | ⟨rfl, rfl⟩ | ⟨rfl, rfl⟩ | ⟨rfl, rfl⟩ <;> rfl

lemma ofCode?_natCast {n : Nat} : ofCode? n = some x ↔ (n, x) ∈ codes := by
  simp [ofCode?_eq_some_iff]

/-- A name is no text of digits. -/
lemma name_not_isDigitLike (x : Speed) : ∃ c ∈ x.name.toList, isDigitLike c = false := by
  have hall : x.name.toList.all isDigitLike = false := by cases x <;> decide
  simpa [List.all_eq_false] using hall

lemma isBlank_of_mem_name {c : Char} (h : c ∈ x.name.toList) : Text.isBlank c = false := by
  have hall : x.name.toList.any Text.isBlank = false := by cases x <;> decide
  simpa using List.any_eq_false.mp hall c h

/-! ### Texts -/

lemma spells_name_iff : Spells s x.name.toList ↔ folded s = x.name.toList :=
  Text.spells_iff fun _ => isBlank_of_mem_name

lemma spells_digits_iff {t : List Char} (ht : ∀ c ∈ t, isDigitLike c = true) :
    Spells s t ↔ folded s = t :=
  Text.spells_iff fun c hc => Text.isBlank_of_isDigitLike (ht c hc)

lemma selects_text_iff : Selects default (.text s) x ↔
    folded s = x.name.toList ∨ ∃ n, Denotes (folded s) n ∧ (n, x) ∈ codes := by
  constructor
  · rintro (_ | _ | h | ⟨hs, ht, h⟩)
    · exact .inl (spells_name_iff.mp h)
    · rw [(spells_digits_iff ht.isDigitLike).mp hs]
      exact .inr ⟨_, ht, h⟩
  · rintro (h | ⟨n, hn, h⟩)
    · exact .name (spells_name_iff.mpr h)
    · exact .numeral (Text.spells_folded s) hn h

lemma misread_text_iff : Misread (.text s) f ↔ Unreadable (folded s) f := by
  constructor
  · rintro ⟨hs, ht⟩
    rwa [(spells_digits_iff ht.isDigitLike).mp hs]
  · exact .text (Text.spells_folded s)

/-! ### Selectors -/

/-- What a selector comes to: a fault exactly if it is misread, and else just what it selects. -/
def Settles (default : Speed) (v : Value) (chosen : Except Text.Integer.Fault (Option Speed)) :
    Prop :=
  (∃ f, chosen = .error f ∧ Misread v f) ∨
    ∃ o, chosen = .ok o ∧ (∀ f, ¬ Misread v f) ∧ ∀ x, o = some x ↔ Selects default v x

lemma ofText_eq (s : String) :
    ofText s =
      let t := String.ofList (folded s)
      match ofName? t with
      | some x => .ok (some x)
      | none =>
        if !t.isEmpty && t.toList.all isDigitLike then (Text.Integer.read t).map ofCode?
        else .ok none :=
  rfl

lemma ofText_of_name (h : folded s = x.name.toList) : ofText s = .ok (some x) := by
  have hname : ofName? (String.ofList (folded s)) = some x := by
    rw [ofName?_eq_some_iff, h, String.ofList_toList]
  simp only [ofText_eq, hname]

lemma ofName?_folded (h : ∀ x : Speed, folded s ≠ x.name.toList) :
    ofName? (String.ofList (folded s)) = none := by
  refine Option.eq_none_iff_forall_ne_some.mpr fun x hx => h x ?_
  rw [← ofName?_eq_some_iff.mp hx, String.toList_ofList]

lemma ofText_of_digits (hname : ∀ x : Speed, folded s ≠ x.name.toList) (hne : folded s ≠ [])
    (hall : ∀ c ∈ folded s, isDigitLike c = true) :
    ofText s = (Text.Integer.read (String.ofList (folded s))).map ofCode? := by
  have hguard : (folded s).all isDigitLike = true := List.all_eq_true.mpr hall
  simp [ofText_eq, ofName?_folded hname, hne, hguard]

lemma ofText_of_not_digits (hname : ∀ x : Speed, folded s ≠ x.name.toList)
    (h : ¬ (folded s ≠ [] ∧ ∀ c ∈ folded s, isDigitLike c = true)) : ofText s = .ok none := by
  have hguard : (!(String.ofList (folded s)).isEmpty &&
      (String.ofList (folded s)).toList.all isDigitLike) = false := by
    rw [Bool.eq_false_iff]
    simpa using h
  simp only [ofText_eq, ofName?_folded hname, hguard]
  rfl

/-- **Texts**: a name first, then a numeral. -/
lemma settles_ofText (default : Speed) (s : String) : Settles default (.text s) (ofText s) := by
  by_cases hname : ∃ x : Speed, folded s = x.name.toList
  · obtain ⟨x, hx⟩ := hname
    -- a name holds a character that stands for no digit
    obtain ⟨c, hc, hnot⟩ := name_not_isDigitLike x
    have hdigits : ¬ ∀ c ∈ folded s, isDigitLike c = true := by
      intro hall
      rw [hall c (hx ▸ hc)] at hnot
      cases hnot
    refine .inr ⟨some x, ofText_of_name hx, fun f hf => ?_, fun y => ?_⟩
    · exact hdigits (misread_text_iff.mp hf).isDigitLike
    · rw [selects_text_iff]
      constructor
      · rintro ⟨⟩
        exact .inl hx
      · rintro (hy | ⟨n, hn, -⟩)
        · rw [name_injective (String.toList_inj.mp (hx.symm.trans hy))]
        · exact absurd hn.isDigitLike hdigits
  · have hname := not_exists.mp hname
    by_cases hall : folded s ≠ [] ∧ ∀ c ∈ folded s, isDigitLike c = true
    · rw [ofText_of_digits hname hall.1 hall.2]
      rcases Text.Integer.read_cases hall.1 hall.2 with ⟨n, hn, hread⟩ | ⟨f, hf, hread⟩
      · rw [hread]
        refine .inr ⟨ofCode? n, rfl, fun f hf => ?_, fun x => ?_⟩
        · rw [(misread_text_iff.mp hf).read_eq] at hread
          cases hread
        · rw [ofCode?_natCast, selects_text_iff, or_iff_right (hname x)]
          constructor
          · exact fun hx => ⟨n, hn, hx⟩
          · rintro ⟨m, hm, hx⟩
            rwa [hn.unique hm]
      · rw [hread]
        exact .inl ⟨f, rfl, misread_text_iff.mpr hf⟩
    · rw [ofText_of_not_digits hname hall]
      refine .inr ⟨none, rfl, fun f hf => ?_, fun x => ?_⟩
      · have hf := misread_text_iff.mp hf
        exact hall ⟨hf.ne_nil, hf.isDigitLike⟩
      · rw [selects_text_iff, or_iff_right (hname x)]
        refine iff_of_false (by simp) ?_
        rintro ⟨n, hn, -⟩
        exact hall ⟨hn.1, hn.isDigitLike⟩

/-- What is chosen before a warning is given. -/
def chosen (default : Speed) : Value → Except Text.Integer.Fault (Option Speed)
  | .null => .ok (some default)
  | .int n => .ok (ofCode? n)
  | .text s => ofText s
  | _ => .ok none

lemma resolve_eq (default : Speed) (v : Value) :
    resolve default v = (chosen default v).map fun
      | some s => (s, [])
      | none => (.normal, [unrecognized v]) :=
  rfl

lemma settles_chosen (default : Speed) (v : Value) : Settles default v (chosen default v) := by
  cases v with
  | text s => exact settles_ofText default s
  | null =>
    refine .inr ⟨some default, rfl, (fun _ hf => nomatch hf), fun x => ?_⟩
    constructor
    · rintro ⟨⟩
      exact .unset
    · rintro ⟨⟩
      rfl
  | int n =>
    refine .inr ⟨ofCode? n, rfl, (fun _ hf => nomatch hf), fun x => ?_⟩
    rw [ofCode?_eq_some_iff]
    constructor
    · rintro ⟨k, rfl, hk⟩
      exact .code hk
    · rintro ⟨⟩
      exact ⟨_, rfl, ‹_›⟩
  | bool | float | moment | list | table =>
    exact .inr ⟨none, rfl, (fun _ hf => nomatch hf), fun x => iff_of_false (by simp) (nomatch ·)⟩

lemma misread_unique {f' : Text.Integer.Fault} (h : Misread v f) (h' : Misread v f') : f = f' := by
  obtain ⟨hs, ht⟩ := h
  have hfolded := misread_text_iff.mp (.text hs ht)
  have hread := hfolded.read_eq.symm.trans (misread_text_iff.mp h').read_eq
  exact Except.error.inj hread

/-- **A selector selects or is warned of**, whatever the settings, if it is not misread. Nothing
selects the default, the codes and the names select their speeds, and so do numerals of the codes.
All else is the normal speed and one warning. The exception are texts of signs that stand for digits
and of too many digits, which are refused. -/
theorem resolve_eq_ok_iff_selects (s : Settings) (v : Value) :
    (∀ f, resolve s.speed v = .error f ↔ Misread v f) ∧
      ((∀ f, ¬ Misread v f) →
        (∀ x, resolve s.speed v = .ok (x, []) ↔ Selects s.speed v x) ∧
          ((∀ x, ¬ Selects s.speed v x) →
            resolve s.speed v = .ok (.normal, [unrecognized v]) ∧
              (unrecognized v).level = .warning)) := by
  rw [resolve_eq]
  rcases settles_chosen s.speed v with ⟨f, hf, hmis⟩ | ⟨o, ho, hmis, hx⟩
  · rw [hf]
    refine ⟨fun f' => ⟨?_, fun hmis' => ?_⟩, fun hnot => absurd hmis (hnot f)⟩
    · rintro ⟨⟩
      exact hmis
    · rw [misread_unique hmis hmis']
      rfl
  · rw [ho]
    refine ⟨fun f => iff_of_false (fun h => nomatch h) (hmis f), fun _ => ?_⟩
    refine ⟨fun x => ?_, fun hnot => ?_⟩
    · rw [← hx]
      cases o <;> simp [Except.map]
    · cases o with
      | none => exact ⟨rfl, rfl⟩
      | some x => exact absurd ((hx x).mp rfl) (hnot x)

/-- A seven of another script, with white space of two kinds around it. -/
theorem resolve_eq_ok_iff_selects_script :
    let v : Value := .text "\u2003٧\n"
    (∀ f, ¬ Misread v f) ∧ Selects .normal v .fast ∧
      resolve ({} : Settings).speed v = .ok (.fast, []) := by
  intro v
  have hmis : ∀ f, ¬ Misread v f := by
    intro f hf
    have hread : Text.Integer.read "٧" = .error f := (misread_text_iff.mp hf).read_eq
    exact absurd hread (by rw [show Text.Integer.read "٧" = .ok 7 by decide]; simp)
  have hseven : Denotes ['٧'] 7 := ⟨by simp, [7], .cons (by decide) .nil, by decide⟩
  have hselects : Selects .normal v .fast :=
    .numeral ⟨['\u2003'], ['٧'], ['\n'], by decide, List.forall_mem_singleton.mpr (by decide),
      List.forall_mem_singleton.mpr (by decide), rfl⟩ hseven (by decide)
  exact ⟨hmis, hselects, (((resolve_eq_ok_iff_selects {} v).2 hmis).1 .fast).mpr hselects⟩

/-- A digit in a circle stands for a digit, and no numeral is written with it: no speed is given and
no warning, but a fault. -/
theorem resolve_circled_digit :
    (∀ x, ¬ Selects ({} : Settings).speed (.text "①") x) ∧
      resolve ({} : Settings).speed (.text "①") = .error (.malformed "①") := by
  refine ⟨fun x hx => ?_, by decide⟩
  rcases selects_text_iff.mp hx with hname | ⟨n, ⟨-, ds, hds, -⟩, -⟩
  · revert hname
    cases x <;> decide
  · have hsome := Text.exists_digits_iff.mp ⟨ds, hds⟩ '①' (by decide)
    exact absurd hsome (by decide)

end Speed

end Trazo
