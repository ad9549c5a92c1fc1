import Mathlib.Data.List.Forall2
import Mathlib.Data.List.Nodup
import Trazo.Program

/-!
The table of procedures: it exists exactly when no name is declared twice, and then holds all of
them in order of declaration. Otherwise the first clash is reported. What the procedures do makes no
difference to it.
-/

namespace Trazo.Procedure

lemma find?_eq_none_iff {t : List Procedure} {name : String} :
    find? t name = none ↔ name ∉ t.map (·.name) := by
  simp [find?]

lemma tableFrom_eq_ok_iff {t ps u : List Procedure} :
    tableFrom t ps = .ok u ↔
      u = t ++ ps ∧ (ps.map (·.name)).Nodup ∧ ∀ p ∈ ps, p.name ∉ t.map (·.name) := by
  induction ps generalizing t with
  | nil => simp [tableFrom, eq_comm]
  | cons p r ih =>
    unfold tableFrom
    cases hf : find? t p.name with
    | some first =>
      have hn : ¬ p.name ∉ t.map (·.name) := by
        rw [← find?_eq_none_iff, hf]
        simp
      simp only [reduceCtorEq, false_iff, not_and]
      intro _ _ h
      exact hn (h p (by simp))
    | none =>
      have hn := find?_eq_none_iff.mp hf
      simp only [ih, List.append_assoc, List.singleton_append, List.map_append, List.map_cons,
        List.map_nil, List.nodup_cons, List.mem_append, List.mem_cons, List.not_mem_nil, or_false,
        not_or, forall_eq_or_imp]
      refine and_congr_right fun _ => ?_
      constructor
      · rintro ⟨hr, h⟩
        refine ⟨⟨?_, hr⟩, hn, fun q hq => (h q hq).1⟩
        intro hm
        obtain ⟨q, hq, he⟩ := List.mem_map.mp hm
        exact (h q hq).2 he
      · rintro ⟨⟨hp, hr⟩, -, h⟩
        refine ⟨hr, fun q hq => ⟨h q hq, fun he => hp ?_⟩⟩
        exact List.mem_map.mpr ⟨q, hq, he⟩

/-- There is a table exactly for distinct names, and it is the list of declarations. -/
theorem table_eq_ok_iff {ps u : List Procedure} :
    table ps = .ok u ↔ u = ps ∧ (ps.map (·.name)).Nodup := by
  simp [table, tableFrom_eq_ok_iff]

lemma mem_of_tableFrom_eq_error {t ps : List Procedure} {d : DuplicateProcedure}
    (h : tableFrom t ps = .error d) : d.procedure ∈ ps := by
  induction ps generalizing t with
  | nil => cases h
  | cons p r ih =>
    unfold tableFrom at h
    split at h
    · cases h
      exact List.mem_cons_self
    · exact List.mem_cons_of_mem p (ih h)

/-- A name that is declared twice is reported for one of the declarations. -/
lemma mem_of_table_eq_error {ps : List Procedure} {d : DuplicateProcedure}
    (h : table ps = .error d) : d.procedure ∈ ps :=
  mem_of_tableFrom_eq_error h

/-! ### Declarations that clash -/

/-- The procedure `p` is the earliest whose name is declared before it, and `first` is the first one
of that name. -/
def Clash (ps : List Procedure) (p first : Procedure) : Prop :=
  ∃ before rest, ps = before ++ p :: rest ∧ (before.map (·.name)).Nodup ∧
    ∃ front between, before = front ++ first :: between ∧ first.name = p.name ∧
      ∀ q ∈ front, q.name ≠ p.name

/-- What is reported is the first clash, if there is none in the part already read. -/
lemma clash_of_tableFrom_eq_error {t ps : List Procedure} {d : DuplicateProcedure}
    (ht : (t.map (·.name)).Nodup) (h : tableFrom t ps = .error d) :
    Clash (t ++ ps) d.procedure d.first := by
  induction ps generalizing t with
  | nil => cases h
  | cons p r ih =>
    unfold tableFrom at h
    cases hf : find? t p.name with
    | some first =>
      rw [hf] at h
      cases h
      obtain ⟨hname, front, between, rfl, hfront⟩ := List.find?_eq_some_iff_append.mp hf
      refine ⟨_, r, rfl, ht, front, between, rfl, by simpa using hname, fun q hq => ?_⟩
      simpa using hfront q hq
    | none =>
      rw [hf] at h
      have hnew : p.name ∉ t.map (·.name) := find?_eq_none_iff.mp hf
      have hnames : ((t ++ [p]).map (·.name)).Nodup := by
        rw [List.map_append, List.nodup_append]
        simpa [ht] using fun q hq he => hnew (List.mem_map.mpr ⟨q, hq, he⟩)
      simpa using ih hnames h

lemma find?_eq_some_iff {t : List Procedure} (ht : (t.map (·.name)).Nodup) {name : String}
    {q : Procedure} : find? t name = some q ↔ q ∈ t ∧ q.name = name := by
  constructor
  · intro h
    exact ⟨List.mem_of_find?_eq_some h, by simpa using List.find?_some h⟩
  · rintro ⟨hq, rfl⟩
    cases hf : find? t q.name with
    | none => exact absurd (List.mem_map.mpr ⟨q, hq, rfl⟩) (find?_eq_none_iff.mp hf)
    | some q' =>
      have hname : q'.name = q.name := by simpa using List.find?_some hf
      rw [List.inj_on_of_nodup_map ht (List.mem_of_find?_eq_some hf) hq hname]

/-- **The table of procedures** exists exactly for distinct names. A name is then looked up as the
procedure declared with it, and the names stand as declared. Otherwise the first clash is reported,
with the name and the line of the later procedure and the line of the first one of that name. -/
theorem table_or_clash (ps : List Procedure) :
    ((∃ t, table ps = .ok t) ↔ (ps.map (·.name)).Nodup) ∧
      (∀ t, table ps = .ok t → t.map (·.name) = ps.map (·.name) ∧
        ∀ name q, find? t name = some q ↔ q ∈ ps ∧ q.name = name) ∧
      (¬ (ps.map (·.name)).Nodup → ∃ p first d, Clash ps p first ∧ table ps = .error d ∧
        d.diagnostic.kind = .duplicateProcedure (some p.name) (some first.line) ∧
        d.diagnostic.line = some p.line) := by
  refine ⟨?_, fun t ht => ?_, fun hnot => ?_⟩
  · constructor
    · rintro ⟨t, ht⟩
      exact (table_eq_ok_iff.mp ht).2
    · exact fun h => ⟨ps, table_eq_ok_iff.mpr ⟨rfl, h⟩⟩
  · obtain ⟨rfl, hnames⟩ := table_eq_ok_iff.mp ht
    exact ⟨rfl, fun name q => find?_eq_some_iff hnames⟩
  · cases ht : table ps with
    | ok t => exact absurd (table_eq_ok_iff.mp ht).2 hnot
    | error d =>
      have hclash : Clash ([] ++ ps) d.procedure d.first :=
        clash_of_tableFrom_eq_error List.nodup_nil ht
      exact ⟨d.procedure, d.first, d, hclash, rfl, rfl, rfl⟩

/-- Two names are declared twice, one pair between the other. The inner one is repeated earlier. -/
theorem table_or_clash_between :
    let declared (name : String) (line : Int) : Procedure := ⟨name, [], line⟩
    let ps := [declared "lado" 1, declared "base" 4, declared "base" 6, declared "lado" 9]
    ¬ (ps.map (·.name)).Nodup ∧ table ps = .error ⟨declared "base" 6, declared "base" 4⟩ ∧
      ∃ p first, Clash ps p first ∧ p.name = "base" ∧ p.line = 6 ∧ first.line = 4 := by
  intro declared ps
  have hnot : ¬ (ps.map (·.name)).Nodup := by decide
  have herror : table ps = .error ⟨declared "base" 6, declared "base" 4⟩ := rfl
  obtain ⟨p, first, d, hclash, hd, hkind, hline⟩ := (table_or_clash ps).2.2 hnot
  obtain rfl := Except.error.inj (herror.symm.trans hd)
  simp only [DuplicateProcedure.diagnostic, Diagnostic.Kind.duplicateProcedure.injEq,
    Option.some.injEq] at hkind hline
  exact ⟨hnot, herror, p, first, hclash, hkind.1.symm, hline.symm, hkind.2.symm⟩

/-! ### Procedures that differ in what they do -/

variable {S : Block → Block → Prop} {ps ps' t t' : List Procedure}

/-- The same name on the same line, for bodies that are related by `S`. -/
structure Alike (S : Block → Block → Prop) (p p' : Procedure) : Prop where
  name : p'.name = p.name
  line : p'.line = p.line
  body : S p.body p'.body

lemma names_alike (h : List.Forall₂ (Alike S) t t') : t'.map (·.name) = t.map (·.name) := by
  induction h with
  | nil => rfl
  | cons hp _ ih => rw [List.map_cons, List.map_cons, hp.name, ih]

lemma find?_alike (h : List.Forall₂ (Alike S) t t') (name : String) :
    Option.Rel (Alike S) (find? t name) (find? t' name) := by
  induction h with
  | nil => exact .none
  | @cons p p' r r' hp _ ih =>
    unfold find? at ih ⊢
    rw [List.find?_cons, List.find?_cons, hp.name]
    cases p.name == name with
    | true => exact .some hp
    | false => exact ih

lemma find?_eq_none_of_alike {name : String} (h : List.Forall₂ (Alike S) t t')
    (hp : find? t name = none) : find? t' name = none := by
  have hfind := find?_alike h name
  rw [hp] at hfind
  generalize find? t' name = x at hfind
  cases hfind
  rfl

lemma exists_find?_of_alike {p : Procedure} {name : String} (h : List.Forall₂ (Alike S) t t')
    (hp : find? t name = some p) : ∃ p', find? t' name = some p' ∧ Alike S p p' := by
  have hfind := find?_alike h name
  rw [hp] at hfind
  generalize find? t' name = x at hfind
  cases hfind with
  | some hp => exact ⟨_, rfl, hp⟩

lemma tableFrom_alike (ht : List.Forall₂ (Alike S) t t') (hps : List.Forall₂ (Alike S) ps ps') :
    (tableFrom t ps = .ok (t ++ ps) ∧ tableFrom t' ps' = .ok (t' ++ ps')) ∨
      ∃ d d', tableFrom t ps = .error d ∧ tableFrom t' ps' = .error d' ∧
        d'.diagnostic = d.diagnostic := by
  induction hps generalizing t t' with
  | nil => simp [tableFrom]
  | @cons p p' r r' hp _ ih =>
    unfold tableFrom
    rw [hp.name]
    have hfind := find?_alike ht p.name
    generalize find? t p.name = x, find? t' p.name = x' at hfind
    cases hfind with
    | none =>
      have hmore := ih (List.rel_append ht (.cons hp .nil))
      simpa using hmore
    | @some first first' hfirst =>
      refine .inr ⟨_, _, rfl, rfl, ?_⟩
      simp only [DuplicateProcedure.diagnostic, hp.name, hp.line, hfirst.line]

/-- Both lists of declarations are their tables, or the same clash is reported for both. -/
lemma table_alike (h : List.Forall₂ (Alike S) ps ps') :
    (table ps = .ok ps ∧ table ps' = .ok ps') ∨
      ∃ d d', table ps = .error d ∧ table ps' = .error d' ∧ d'.diagnostic = d.diagnostic :=
  tableFrom_alike .nil h

end Trazo.Procedure

namespace Trazo.Program

/-- The same program but for its blocks, which are related by `S`. -/
structure Alike (S : Block → Block → Prop) (p p' : Program) : Prop where
  main : Option.Rel (fun m m' => m'.line = m.line ∧ S m.body m'.body) p.main p'.main
  procedures : List.Forall₂ (Procedure.Alike S) p.procedures p'.procedures

end Trazo.Program
