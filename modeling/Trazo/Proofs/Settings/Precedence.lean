import Mathlib
import Trazo.Proofs.Outcome
import Trazo.Proofs.Settings.Loaded
import Trazo.Proofs.Settings.Merging

/-!
Which of the sources of settings counts.

What is given directly counts before the file, and the file before the environment, field by field;
only tables of delays are merged, entry by entry. The file is overridden key by key, before anyone
asks which fields the keys name. So this holds of a field that the file and the values given
directly spell in one way, which is always so if only its own name names it; and if two keys name a
field, no rule for choosing between their values makes it hold of all spellings.
-/

namespace Trazo.Settings

open Table (keep keep_update)

variable {K : Keywords} {t t' base base' overrides given given' : Table} {key j k : String}
  {vars vars' : List (String × String)} {old : Option Value} {v w : Value} {d : Delays}

/-! ### Entries for a field -/

/-- The variables for other fields. -/
def otherVariables (key : String) (vars : List (String × String)) : List (String × String) :=
  vars.filter fun e => fold e.1 != variableStem ++ key

lemma textOf?_otherVariables (h : k ≠ key) :
    textOf? (otherVariables key vars) k = textOf? vars k := by
  have hne : variableStem ++ k ≠ variableStem ++ key := by
    simpa [← String.toList_inj] using h
  simp only [textOf?, otherVariables, ← List.head?_filter, ← List.filter_reverse,
    List.filter_filter]
  congr 2
  refine List.filter_congr fun e _ => ?_
  by_cases he : fold e.1 = variableStem ++ k <;> simp [he, hne]

namespace Keywords

variable {field : String}

/-- The entries for a field, whatever keys name it. -/
def entriesFor (K : Keywords) (field : String) : Table → Table := keep (K.names · field)

/-- All other entries. -/
def others (K : Keywords) (field : String) : Table → Table := keep fun k => !K.names k field

/-- A table that gives a field at most once, and under this key. -/
structure GivesOnce (K : Keywords) (field k : String) (t : Table) : Prop where
  once : (K.entriesFor field t).length ≤ 1
  spelt : ∀ e ∈ K.entriesFor field t, e.1 = k

/-- A field that only its own name names is given at most once. -/
lemma givesOnce_of_own (hown : ∀ k, K.names k field = true → k = field) (ht : t.keys.Nodup) :
    K.GivesOnce field field t := by
  have hspelt : ∀ e ∈ K.entriesFor field t, e.1 = field :=
    fun e he => hown e.1 (List.mem_filter.mp he).2
  have hnodup : (K.entriesFor field t).keys.Nodup :=
    ht.sublist (List.filter_sublist.map _)
  refine ⟨?_, hspelt⟩
  match K.entriesFor field t, hspelt, hnodup with
  | [], _, _ | [_], _, _ => simp
  | d :: e :: es, hspelt, hnodup =>
    have hd := hspelt d (by simp)
    have he := hspelt e (by simp)
    simp [Table.keys, hd, he] at hnodup

lemma GivesOnce.entriesFor_eq (hk : K.names k field = true) (h : K.GivesOnce field k t) :
    K.entriesFor field t = ((t.get? k).map fun v => (k, v)).toList := by
  have hget : t.get? k = (K.entriesFor field t).get? k :=
    (Table.get?_keep (p := (K.names · field)) hk).symm
  obtain ⟨honce, hspelt⟩ := h
  rw [hget]
  match K.entriesFor field t, honce, hspelt with
  | [], _, _ => rfl
  | [e], _, hspelt => simp [Table.get?, ← hspelt e List.mem_cons_self]
  | _ :: _ :: _, honce, _ => simp at honce

/-! ### The value that is chosen -/

lemma choose_nil (K : Keywords) : K.choose [] = none := by
  refine Option.eq_none_iff_forall_ne_some.mpr fun v hv => ?_
  obtain ⟨k, hk⟩ := K.mem_of_choose [] v hv
  cases hk

lemma choose_singleton (K : Keywords) (k : String) (v : Value) : K.choose [(k, v)] = some v := by
  obtain ⟨w, hw⟩ := Option.isSome_iff_exists.mp (K.isSome_choose [(k, v)] (by simp))
  obtain ⟨j, hj⟩ := K.mem_of_choose _ w hw
  obtain ⟨-, rfl⟩ : j = k ∧ w = v := by simpa using hj
  exact hw

/-- What is given directly counts before the file. -/
lemma value?_update (hk : K.names k field = true) (hbase : K.GivesOnce field k base)
    (hoverrides : K.GivesOnce field k overrides) :
    K.value? (base.update overrides) field = (overrides.get? k).or (base.get? k) := by
  have hentries : K.entriesFor field (base.update overrides) =
      (K.entriesFor field base).update (K.entriesFor field overrides) := keep_update _ _ _
  have hvalue : K.value? (base.update overrides) field =
      K.choose (K.entriesFor field (base.update overrides)) := rfl
  rw [hvalue, hentries, hbase.entriesFor_eq hk, hoverrides.entriesFor_eq hk]
  cases overrides.get? k <;> cases base.get? k <;>
    simp [Table.update, Table.insert, choose_nil, choose_singleton]

/-- A field that the file gives has a value, whatever is given directly. -/
lemma isSome_value?_update (hk : K.names k field = true) (h : k ∈ base.keys) (overrides : Table) :
    (K.value? (base.update overrides) field).isSome := by
  obtain ⟨e, he, rfl⟩ := List.mem_map.mp h
  have hbase : keep (K.names · field) base ≠ [] :=
    List.ne_nil_of_mem (List.mem_filter.mpr ⟨he, hk⟩)
  have hupdate : keep (K.names · field) (base.update overrides) ≠ [] := by
    rw [keep_update]
    exact Table.update_ne_nil hbase
  exact K.isSome_choose _ hupdate

lemma value?_others (hfield : field ∈ fieldNames) (hk : k ∈ fieldNames) (h : k ≠ field)
    (t : Table) : K.value? (K.others field t) k = K.value? t k := by
  refine congrArg K.choose ?_
  simp only [others, keep, List.filter_filter]
  refine List.filter_congr fun e _ => ?_
  cases hnames : K.names e.1 k with
  | false => rfl
  | true =>
    cases hother : K.names e.1 field with
    | false => rfl
    | true => exact absurd (K.eq_of_names e.1 k hk field hfield hnames hother) h

/-- What is given counts only by the values of the fields and by the entries for no field. -/
lemma normalized_congr (hfield : field ∈ fieldNames)
    (hothers : K.others field given = K.others field given')
    (hvalue : K.value? given field = K.value? given' field) :
    K.normalized given = K.normalized given' := by
  have hvalues : ∀ k ∈ fieldNames, K.value? given k = K.value? given' k := by
    intro k hk
    by_cases h : k = field
    · rw [h, hvalue]
    · rw [← value?_others hfield hk h, hothers, value?_others hfield hk h]
  have hrest : ∀ t : Table, t.filter (fun e => !fieldNames.any fun k => K.names e.1 k) =
      (K.others field t).filter fun e => !fieldNames.any fun k => K.names e.1 k := by
    intro t
    rw [others, keep, List.filter_filter]
    refine List.filter_congr fun e _ => ?_
    cases hnames : K.names e.1 field with
    | false => simp
    | true =>
      have hany : (fieldNames.any fun k => K.names e.1 k) = true :=
        List.any_eq_true.mpr ⟨field, hfield, hnames⟩
      simp [hany]
  rw [normalized, normalized, hrest given, hothers, ← hrest given']
  congr 1
  exact List.filterMap_congr fun k hk => by rw [hvalues k hk]

lemma keep_normalized (h : k ∈ fieldNames) :
    keep (· == k) (K.normalized given) = ((K.value? given k).map fun v => (k, v)).toList := by
  have hself := K.names_self k h
  have hrest : (given.filter fun e => !fieldNames.any fun j => K.names e.1 j).filter (·.1 == k) =
      [] := by
    rw [List.filter_filter, List.filter_eq_nil_iff]
    rintro e - he
    obtain ⟨rfl, hnone⟩ : e.1 = k ∧ ∀ j ∈ fieldNames, K.names e.1 j = false := by simpa using he
    simp [hnone e.1 h] at hself
  have hrows := keep_rows nodup_fieldNames (K.value? given) k
  rw [if_pos h, keep] at hrows
  rw [keep, normalized, List.filter_append, hrest, List.append_nil]
  exact hrows

end Keywords

/-! ### The environment under what is given -/

/-- What a field is made from: a value given, put onto what the environment holds. -/
def combined (held : Option Value) : Option Value → Option Value
  | none => held
  | some v => some (onto held v)

/-- The value given, or else what the environment holds; a table given has its entries in the place
of those in the environment. -/
def layered : Option Value → Option Value → Option Value
  | some (.table t), some (.table u) => some (.table (Table.update t u))
  | held, none => held
  | _, some v => some v

lemma get?_mergeTables_rows (h : k ∈ fieldNames) (g : String → Option Value) (given : Table) :
    (mergeTables (rows g fieldNames) (K.normalized given)).get? k =
      combined (g k) (K.value? given k) := by
  rw [get?_mergeTables, Keywords.keep_normalized h, get?_rows nodup_fieldNames, if_pos h]
  cases K.value? given k <;> rfl

lemma layered_eq_combined (h : ∀ w, old ≠ some (.table w)) (v : Option Value) :
    layered old v = combined old v := by
  cases v with
  | none => cases old with
    | none => rfl
    | some o => cases o <;> rfl
  | some v =>
    rw [combined, onto_eq_self h]
    match old, v, h with
    | some (.table w), _, h => exact absurd rfl (h w)
    | none, _, _ => rfl
    | some .null, _, _ | some (.bool _), _, _ | some (.int _), _, _ | some (.float _), _, _
    | some (.text _), _, _ | some (.moment _), _, _ | some (.list _), _, _ => rfl

lemma integer_onto (old : Option Value) (v : Value) : integer (onto old v) = integer v := by
  by_cases h : ∀ w, old ≠ some (.table w)
  · rw [onto_eq_self h]
  · obtain ⟨w, rfl⟩ : ∃ w, old = some (.table w) := by simpa using h
    cases v with
    | table new => simp only [onto, mergeValue, integer]
    | null | bool | int | float | text | moment | list => simp only [onto, mergeValue]

/-- In a merged table the same integers are found as in an updated one. -/
lemma map_integer_mergeTables (h : ∀ k, (t.get? k).map integer = (t'.get? k).map integer)
    (u : Table) (k : String) :
    ((mergeTables t u).get? k).map integer = ((t'.update u).get? k).map integer := by
  induction u generalizing t t' with
  | nil =>
    rw [mergeTables]
    exact h k
  | cons e u ih =>
    have hstep : t'.update (e :: u) = (t'.insert e.1 e.2).update u := rfl
    rw [mergeTables_cons, hstep]
    refine ih fun j => ?_
    rw [Table.get?_insert, Table.get?_insert]
    by_cases hj : e.1 = j
    · simp [hj, integer_onto]
    · simpa [hj] using h j

lemma Tabulates.of_mergeTables (h : Tabulates (.table (mergeTables t t')) d) :
    Tabulates (.table (t.update t')) d := by
  obtain ⟨es, hes, hget⟩ := h
  obtain rfl : mergeTables t t' = es := by simpa using hes
  refine ⟨_, rfl, fun k => ?_⟩
  rw [← map_integer_mergeTables (fun _ => rfl) t' k, hget k]

lemma yields_layered (v : Option Value) (h : Yields (combined old v) {} Tabulates d) :
    Yields (layered old v) {} Tabulates d := by
  by_cases hold : ∀ w, old ≠ some (.table w)
  · rwa [layered_eq_combined hold]
  · obtain ⟨t, rfl⟩ : ∃ t, old = some (.table t) := by simpa using hold
    match v, h with
    | none, h => exact h
    | some (.table u), h =>
      have hmerged : combined (some (.table t)) (some (.table u)) =
          some (.table (mergeTables t u)) := by
        simp only [combined, onto, mergeValue]
      rw [hmerged] at h
      exact Tabulates.of_mergeTables h
    | some .null, h | some (.bool _), h | some (.int _), h | some (.float _), h
    | some (.text _), h | some (.moment _), h | some (.list _), h =>
      simpa only [Yields, combined, layered, onto, mergeValue] using h

lemma Loaded.of_values {value other : String → Option Value} {s : Settings} (h : Loaded value s)
    (hscalar : ∀ key ∈ fieldNames, key ≠ "speed_delays_ms" → value key = other key)
    (hdelays : Yields (value "speed_delays_ms") {} Tabulates s.delays →
      Yields (other "speed_delays_ms") {} Tabulates s.delays) : Loaded other s where
  maxSteps := hscalar "max_execution_steps" (by decide) (by decide) ▸ h.maxSteps
  maxDepth := hscalar "max_recursion_depth" (by decide) (by decide) ▸ h.maxDepth
  maxRepeat := hscalar "max_repeat_count" (by decide) (by decide) ▸ h.maxRepeat
  maxNumber := hscalar "max_number_literal" (by decide) (by decide) ▸ h.maxNumber
  maxNesting := hscalar "max_nesting_depth" (by decide) (by decide) ▸ h.maxNesting
  minSide := hscalar "min_board_size" (by decide) (by decide) ▸ h.minSide
  maxSide := hscalar "max_board_size" (by decide) (by decide) ▸ h.maxSide
  minSide_le_maxSide := h.minSide_le_maxSide
  speed := hscalar "default_speed" (by decide) (by decide) ▸ h.speed
  delays := hdelays h.delays
  logLevel := hscalar "log_level" (by decide) (by decide) ▸ h.logLevel

/-- Settings made from a merged table are made from what is given over what the environment
holds. -/
lemma loaded_layered {g : String → Option Value} {s : Settings}
    (hg : ∀ key, key ≠ "speed_delays_ms" → ∀ w, g key ≠ some (.table w))
    (h : ofTable (mergeTables (rows g fieldNames) (K.normalized given)) = .ok s) :
    Loaded (fun key => layered (g key) (K.value? given key)) s := by
  refine (loaded_of_ofTable h).of_values (fun key hkey hscalar => ?_) fun hdelays => ?_
  · rw [get?_mergeTables_rows hkey, layered_eq_combined (hg key hscalar)]
  · rw [get?_mergeTables_rows (by decide)] at hdelays
    exact yields_layered _ hdelays

/-! ### Loading -/

/-- The entries of the file, none if none is named. -/
def fileEntries : Option (String × File) → Except FileFault Table
  | none => .ok []
  | some (path, file) => fileTable path file

variable {file file' : Option (String × File)} {s : Settings}

lemma load_eq (hfile : fileEntries file = .ok base) (vars : List (String × String))
    (overrides : Table) :
    load K vars file overrides =
      (make K vars (Table.update base overrides)).mapError .settings := by
  cases file with
  | none =>
    obtain rfl : [] = base := Except.ok.inj hfile
    simp only [load, bind, Except.bind, pure, Except.pure]
  | some f =>
    have hread : fileTable f.1 f.2 = .ok base := hfile
    simp only [load, hread, Except.mapError, bind, Except.bind]

lemma make_of_environment {env : Table} (h : environment vars = .ok env) (given : Table) :
    make K vars given = (ofTable (mergeTables env (K.normalized given))).mapError .invalid := by
  simp only [make, h, Except.mapError, bind, Except.bind]

lemma make_of_environment_error {f : EnvironmentFault} (h : environment vars = .error f)
    (given : Table) : make K vars given = .error (.environment f) := by
  simp only [make, h, Except.mapError, bind, Except.bind]

/-- Settings are made from what is given over what the environment holds. -/
lemma loaded_of_make (h : make K vars given = .ok s) :
    ∃ g : String → Option Value, (∀ key, heldFor vars key = .ok (g key)) ∧
      Loaded (fun key => layered (g key) (K.value? given key)) s := by
  rcases environment_cases vars with ⟨f, -, hf⟩ | ⟨g, hg, henv⟩
  · rw [make_of_environment_error hf] at h
    cases h
  · rw [make_of_environment henv] at h
    have hscalar : ∀ key, key ≠ "speed_delays_ms" → ∀ w, g key ≠ some (.table w) := by
      intro key hkey w
      rw [Except.ok.inj ((hg key).symm.trans (heldFor_of_ne hkey))]
      simp
    exact ⟨g, hg, loaded_layered hscalar (of_mapError h)⟩

/-- The same outcome, but that a complaint about all fields together may tell of the same table with
its keys in another order. -/
inductive Alike : Except LoadFault Settings → Except LoadFault Settings → Prop
  | same (r : Except LoadFault Settings) : Alike r r
  | reordered (text : String) {t u : Table} (h : ∀ k, t.get? k = u.get? k) :
      Alike (.error (.settings (.invalid [⟨[], .rule text, .table t⟩])))
        (.error (.settings (.invalid [⟨[], .rule text, .table u⟩])))

/-- Two outcomes that no variable for a field tells apart; the order of keys in them can tell
whether there is one. -/
structure Indifferent (key : String) (vars vars' : List (String × String))
    (r r' : Except LoadFault Settings) : Prop where
  alike : Alike r r'
  eq : (textOf? vars key).isSome = (textOf? vars' key).isSome → r = r'

/-- Environments that differ in one variable, which is not for the delays. -/
lemma environment_pair (hscalar : key ≠ "speed_delays_ms")
    (h : ∀ k, k ≠ key → heldFor vars k = heldFor vars' k) :
    (∃ f, environment vars = .error f ∧ environment vars' = .error f) ∨
      ∃ g g', environment vars = .ok (rows g fieldNames) ∧
        environment vars' = .ok (rows g' fieldNames) ∧ (∀ k, k ≠ key → g k = g' k) ∧
        g key = (textOf? vars key).map .text ∧ g' key = (textOf? vars' key).map .text := by
  have hdelays := h _ hscalar.symm
  rcases environment_cases vars with ⟨f, hf, herror⟩ | ⟨g, hg, henv⟩
  · rcases environment_cases vars' with ⟨f', hf', herror'⟩ | ⟨g', hg', -⟩
    · rw [hf, hf'] at hdelays
      cases hdelays
      exact .inl ⟨f, herror, herror'⟩
    · rw [hf, hg'] at hdelays
      cases hdelays
  · rcases environment_cases vars' with ⟨f', hf', -⟩ | ⟨g', hg', henv'⟩
    · rw [hg, hf'] at hdelays
      cases hdelays
    · refine .inr ⟨g, g', henv, henv', fun k hk => ?_, ?_, ?_⟩
      · exact Except.ok.inj ((hg k).symm.trans ((h k hk).trans (hg' k)))
      · exact Except.ok.inj ((hg key).symm.trans (heldFor_of_ne hscalar))
      · exact Except.ok.inj ((hg' key).symm.trans (heldFor_of_ne hscalar))

/-- A value that is given hides one that is no table. -/
lemma get?_mergeTables_rows_congr {g g' : String → Option Value} (hkey : key ∈ fieldNames)
    (hgiven : (K.value? given key).isSome) (hrow : ∀ k, k ≠ key → g k = g' k)
    (hold : ∀ w, g key ≠ some (.table w)) (hold' : ∀ w, g' key ≠ some (.table w)) (k : String) :
    (mergeTables (rows g fieldNames) (K.normalized given)).get? k =
      (mergeTables (rows g' fieldNames) (K.normalized given)).get? k := by
  by_cases hk : k = key
  · obtain ⟨v, hv⟩ := Option.isSome_iff_exists.mp hgiven
    rw [hk, get?_mergeTables_rows hkey, get?_mergeTables_rows hkey, hv, combined, combined,
      onto_eq_self hold, onto_eq_self hold']
  · rw [get?_mergeTables, get?_mergeTables, get?_rows nodup_fieldNames, get?_rows nodup_fieldNames,
      hrow k hk]

lemma mergeTables_rows_congr {g g' : String → Option Value} {u : Table}
    (hget : ∀ k, (mergeTables (rows g fieldNames) u).get? k =
      (mergeTables (rows g' fieldNames) u).get? k)
    (hsome : ∀ k ∈ fieldNames, (g k).isSome = (g' k).isSome) :
    mergeTables (rows g fieldNames) u = mergeTables (rows g' fieldNames) u := by
  have hrows := (keys_rows_sublist g fieldNames).nodup nodup_fieldNames
  have hkeys := keys_mergeTables_congr (keys_rows_congr hsome) u
  exact Table.eq_of_keys_eq_of_get?_eq (nodup_keys_mergeTables hrows u) hkeys hget

/-- **A value that is given hides the variable of its field**, unless it is a table. -/
lemma indifferent_of_given (hfile : fileEntries file = .ok base)
    (hfile' : fileEntries file' = .ok base') (hkey : key ∈ fieldNames)
    (hscalar : key ≠ "speed_delays_ms")
    (hnormalized : K.normalized (base.update overrides) = K.normalized (base'.update overrides))
    (hgiven : (K.value? (base.update overrides) key).isSome)
    (hvars : otherVariables key vars = otherVariables key vars') :
    Indifferent key vars vars' (load K vars file overrides) (load K vars' file' overrides) := by
  have hheld : ∀ k, k ≠ key → heldFor vars k = heldFor vars' k := by
    intro k hk
    rw [heldFor, heldFor, ← textOf?_otherVariables hk, hvars, textOf?_otherVariables hk]
  rw [load_eq hfile, load_eq hfile']
  rcases environment_pair hscalar hheld with ⟨f, hf, hf'⟩ |
    ⟨g, g', henv, henv', hrow, htext, htext'⟩
  · rw [make_of_environment_error hf, make_of_environment_error hf']
    exact ⟨.same _, fun _ => rfl⟩
  · rw [make_of_environment henv, make_of_environment henv', ← hnormalized]
    have hget := get?_mergeTables_rows_congr hkey hgiven hrow (by simp [htext]) (by simp [htext'])
    refine ⟨?_, fun hsome => ?_⟩
    · rcases ofTable_congr hget with heq | ⟨text, ht, hu⟩
      · rw [heq]
        exact .same _
      · rw [ht, hu]
        exact .reordered text hget
    · have hsomeRow : ∀ k ∈ fieldNames, (g k).isSome = (g' k).isSome := by
        intro k _
        by_cases hk : k = key
        · rw [hk, htext, htext', Option.isSome_map, Option.isSome_map, hsome]
        · rw [hrow k hk]
      rw [mergeTables_rows_congr hget hsomeRow]

/-! ### A file written in JSON -/

lemma splitOn_json : "c.json".splitOn "/" = ["c.json"] := by
  have hstep : ∀ i : String.Pos.Raw, i.atEnd "c.json" = false →
      (i.get "c.json" == String.Pos.Raw.get "/" 0) = false →
      "c.json".splitOnAux "/" 0 i 0 [] =
        "c.json".splitOnAux "/" 0 ((i.unoffsetBy 0).next "c.json") 0 [] := by
    intro i hend hget
    rw [String.splitOnAux, if_neg (by simp [hend]), if_neg (by simp [hget])]
  have hend : "c.json".splitOnAux "/" 0 ⟨6⟩ 0 [] = ["c.json"] := by
    rw [String.splitOnAux, if_pos (by decide)]
    decide
  rw [String.splitOn, if_neg (by decide)]
  calc
    _ = "c.json".splitOnAux "/" 0 ⟨1⟩ 0 [] := hstep _ (by decide) (by decide)
    _ = "c.json".splitOnAux "/" 0 ⟨2⟩ 0 [] := hstep _ (by decide) (by decide)
    _ = "c.json".splitOnAux "/" 0 ⟨3⟩ 0 [] := hstep _ (by decide) (by decide)
    _ = "c.json".splitOnAux "/" 0 ⟨4⟩ 0 [] := hstep _ (by decide) (by decide)
    _ = "c.json".splitOnAux "/" 0 ⟨5⟩ 0 [] := hstep _ (by decide) (by decide)
    _ = "c.json".splitOnAux "/" 0 ⟨6⟩ 0 [] := hstep _ (by decide) (by decide)
    _ = ["c.json"] := hend

lemma suffix_json : suffix "c.json" = ".json" := by
  have hplain : plainPath "c.json" = "c.json" := by
    rw [plainPath, splitOn_json]
    decide +kernel
  rw [suffix, hplain, splitOn_json]
  decide +kernel

/-- A file that holds a JSON text of a table gives the entries of the table. -/
lemma fileEntries_json {b : List UInt8} {source : List Char}
    (htext : Text.Utf8.text b = .ok source) (hjson : Json.read source = .ok (.table t)) :
    fileEntries (some ("c.json", .bytes b)) = .ok t := by
  have hvalue : fileValue "c.json" source = .ok (.table t) := by
    rw [fileValue, if_pos suffix_json, hjson]
    rfl
  simp only [fileEntries, fileTable, htext, Except.mapError, bind, Except.bind, hvalue]
  rfl

/-- **The sources count in their order.** A scalar field that is given directly is made from this
value, whatever the file and the environment hold for it, and one that the file gives whatever the
environment holds. Settings are made from the values of their fields, and their delays from the
entries of the table given directly, or else in the file, over those in the environment. Where the
file meets what is given directly, both are to give the field once and under one key; this is so for
all distinct keys if only its own name names the field. -/
theorem load_respects_precedence (K : Keywords) (hfile : fileEntries file = .ok base)
    (vars : List (String × String)) (overrides : Table) :
    (∀ field ∈ fieldNames, field ≠ "speed_delays_ms" → ∀ k file' base' vars',
      fileEntries file' = .ok base' → K.names k field = true → k ∈ overrides.keys →
      K.GivesOnce field k overrides → K.GivesOnce field k base → K.GivesOnce field k base' →
      K.others field base = K.others field base' →
      otherVariables field vars = otherVariables field vars' →
        Indifferent field vars vars' (load K vars file overrides)
          (load K vars' file' overrides)) ∧
    (∀ field ∈ fieldNames, field ≠ "speed_delays_ms" → ∀ k vars',
      K.names k field = true → k ∈ base.keys →
      otherVariables field vars = otherVariables field vars' →
        Indifferent field vars vars' (load K vars file overrides)
          (load K vars' file overrides)) ∧
    (∀ s, load K vars file overrides = .ok s →
      ∃ value, Loaded value s ∧
        ∀ field ∈ fieldNames, ∀ k, K.names k field = true →
          K.GivesOnce field k base → K.GivesOnce field k overrides →
          ∃ held, heldFor vars field = .ok held ∧
            value field = layered held ((overrides.get? k).or (base.get? k))) ∧
    ∀ field, (∀ k, K.names k field = true → k = field) →
      ∀ t : Table, t.keys.Nodup → K.GivesOnce field field t := by
  refine ⟨?_, ?_, ?_, fun field hown t ht => Keywords.givesOnce_of_own hown ht⟩
  · intro field hfield hscalar k file' base' vars' hfile' hk hgiven hoverrides hbase hbase' hothers
      hvars
    have hvalue := Keywords.value?_update hk hbase hoverrides
    have hvalue' := Keywords.value?_update hk hbase' hoverrides
    obtain ⟨v, hv⟩ : ∃ v, overrides.get? k = some v :=
      Option.ne_none_iff_exists'.mp fun hnone => Table.get?_eq_none_iff.mp hnone hgiven
    rw [hv, Option.some_or] at hvalue hvalue'
    have hrest : K.others field (base.update overrides) =
        K.others field (base'.update overrides) := by
      simp only [Keywords.others, keep_update] at hothers ⊢
      rw [hothers]
    refine indifferent_of_given hfile hfile' hfield hscalar ?_ (by simp [hvalue]) hvars
    exact Keywords.normalized_congr hfield hrest (hvalue.trans hvalue'.symm)
  · intro field hfield hscalar k vars' hk hgiven hvars
    exact indifferent_of_given hfile hfile hfield hscalar rfl
      (Keywords.isSome_value?_update hk hgiven overrides) hvars
  · intro s hs
    rw [load_eq hfile] at hs
    obtain ⟨g, hg, hloaded⟩ := loaded_of_make (of_mapError hs)
    refine ⟨_, hloaded, fun field _ k hk hbase hoverrides => ⟨_, hg field, ?_⟩⟩
    rw [Keywords.value?_update hk hbase hoverrides]

/-- A board size in all three sources, and delays in the first and the last. -/
theorem load_respects_precedence_layers :
    let delays := "\x7b\"fast\": 5, \"slow\": 6\x7d"
    let vars := [("QDRAW_MAX_BOARD_SIZE", "7"), ("QDRAW_SPEED_DELAYS_MS", delays)]
    let text := "\x7b\"max_board_size\": 9\x7d"
    let file := some ("c.json", File.bytes text.toUTF8.toList)
    let overrides := [("max_board_size", Value.int 3),
      ("speed_delays_ms", .table [("instant", .int 0), ("normal", .int 1), ("slow", .int 2)])]
    Indifferent "max_board_size" vars vars.tail (load .folded vars file overrides)
        (load .folded vars.tail none overrides) ∧
      load .folded vars file overrides =
        .ok { maxSide := 3, delays := { instant := 0, fast := 5, normal := 1, slow := 2 } } := by
  intro delays vars text file overrides
  let base : Table := [("max_board_size", .int 9)]
  have htext : Text.Utf8.text text.toUTF8.toList = .ok text.toList := by cbv
  have hjson : Json.read text.toList = .ok (.table base) := by cbv
  have hfile : fileEntries file = .ok base := fileEntries_json htext hjson
  have hsize : fold "max_board_size" = "max_board_size" := fold_eq (by decide)
  have hdelays : fold "speed_delays_ms" = "speed_delays_ms" := fold_eq (by decide)
  have hsizeVariable : fold "QDRAW_MAX_BOARD_SIZE" = "qdraw_max_board_size" := fold_eq (by decide)
  have hdelaysVariable : fold "QDRAW_SPEED_DELAYS_MS" = "qdraw_speed_delays_ms" :=
    fold_eq (by decide)
  constructor
  · have hbase : Keywords.folded.GivesOnce "max_board_size" "max_board_size" base :=
      ⟨by simp [Keywords.entriesFor, keep, Keywords.folded, base, hsize],
        by simp [Keywords.entriesFor, keep, base]⟩
    have hnone : Keywords.folded.GivesOnce "max_board_size" "max_board_size" [] :=
      ⟨by decide, by simp [Keywords.entriesFor, keep]⟩
    have hoverrides : Keywords.folded.GivesOnce "max_board_size" "max_board_size" overrides :=
      ⟨by simp [Keywords.entriesFor, keep, Keywords.folded, overrides, hsize, hdelays],
        by simp [Keywords.entriesFor, keep, Keywords.folded, overrides, hsize, hdelays]⟩
    refine (load_respects_precedence .folded hfile vars overrides).1 "max_board_size" (by decide)
      (by decide) "max_board_size" none [] vars.tail rfl (by simp [Keywords.folded, hsize])
      (by simp [overrides, Table.keys]) hoverrides hbase hnone ?_ ?_
    · simp [Keywords.others, keep, Keywords.folded, base, hsize]
    · simp [otherVariables, vars, hsizeVariable, hdelaysVariable, variableStem]
  · have henv : environment vars = .ok [("max_board_size", .text "7"),
        ("speed_delays_ms", .table [("fast", .int 5), ("slow", .int 6)])] := by
      simp only [environment, textOf?, vars, List.reverse_cons, List.reverse_nil, List.nil_append,
        List.cons_append, List.find?_cons, hsizeVariable, hdelaysVariable]
      cbv
    have hgiven : Keywords.folded.normalized (base.update overrides) = overrides := by
      simp [Keywords.normalized, Keywords.value?, Keywords.folded, fieldNames, base, overrides,
        Table.update, Table.insert, hsize, hdelays]
    have hmerged : mergeTables [("max_board_size", .text "7"),
        ("speed_delays_ms", .table [("fast", .int 5), ("slow", .int 6)])] overrides =
        [("max_board_size", .int 3), ("speed_delays_ms", .table [("fast", .int 5), ("slow", .int 2),
          ("instant", .int 0), ("normal", .int 1)])] := by
      simp [overrides, mergeTables, mergeValue, Table.get?, Table.insert]
    rw [load_eq hfile, make_of_environment henv, hgiven, hmerged]
    rfl

/-! ### Two spellings of a field -/

/-- A value that is given alone comes under the name of its field. -/
lemma normalized_singleton {field : String} (hfield : field ∈ fieldNames)
    (hk : K.names k field = true) (v : Value) : K.normalized [(k, v)] = [(field, v)] := by
  have hvalue : K.value? [(k, v)] field = some v := by
    simp [Keywords.value?, hk, Keywords.choose_singleton]
  have hnone : ∀ j ∈ fieldNames, j ≠ field → K.value? [(k, v)] j = none := by
    intro j hj hne
    have hnames : K.names k j = false :=
      Bool.eq_false_iff.mpr fun h => hne (K.eq_of_names k j hj field hfield h hk)
    simp [Keywords.value?, hnames, Keywords.choose_nil]
  have hrows : rows (K.value? [(k, v)]) fieldNames = [(field, v)] := by
    have hkeep : keep (· == field) (rows (K.value? [(k, v)]) fieldNames) =
        rows (K.value? [(k, v)]) fieldNames := by
      refine List.filter_eq_self.mpr fun e he => ?_
      obtain ⟨j, hj, hje⟩ := List.mem_filterMap.mp he
      by_cases hne : j = field
      · obtain ⟨w, -, rfl⟩ := Option.map_eq_some_iff.mp hje
        simpa using hne
      · simp [hnone j hj hne] at hje
    rw [← hkeep, keep_rows nodup_fieldNames, if_pos hfield, hvalue]
    rfl
  have hany : (fieldNames.any fun j => K.names k j) = true :=
    List.any_eq_true.mpr ⟨field, hfield, hk⟩
  have hrest :
      ([(k, v)] : Table).filter (fun e => !fieldNames.any fun j => K.names e.1 j) = [] := by
    simp [hany]
  rw [Keywords.normalized, hrest, List.append_nil]
  exact hrows

/-- The settings from a size of boards alone. -/
lemma load_size (hfile : fileEntries file = .ok base)
    (hgiven : K.normalized (base.update overrides) = [("max_board_size", v)])
    (hs : ofTable [("max_board_size", v)] = .ok s) : load K [] file overrides = .ok s := by
  have hmerged : mergeTables [] [("max_board_size", v)] = [("max_board_size", v)] := by
    simp [mergeTables, Table.get?, Table.insert]
  rw [load_eq hfile, make_of_environment rfl, hgiven, hmerged, hs]
  rfl

/-- **No rule for choosing helps**, if two keys name the size of boards. The file gives the one and
the other is given directly, or the file gives both and the first is given directly; both come to
the same table, so that one of the two files is not overridden. -/
theorem load_of_two_spellings :
    let one := "\x7b\"Max_Board_Size\": 5\x7d"
    let both := "\x7b\"Max_Board_Size\": 9, \"MAX_BOARD_SIZE\": 3\x7d"
    let first := some ("c.json", File.bytes one.toUTF8.toList)
    let second := some ("c.json", File.bytes both.toUTF8.toList)
    let large := [("MAX_BOARD_SIZE", Value.int 3)]
    let mixed := [("Max_Board_Size", Value.int 5)]
    (load .folded [] second mixed = .ok { maxSide := 3 } ∧
        load .folded [] none mixed = .ok { maxSide := 5 }) ∧
      ∀ K : Keywords, K.names "Max_Board_Size" "max_board_size" = true →
        K.names "MAX_BOARD_SIZE" "max_board_size" = true →
        ¬ (load K [] first large = load K [] none large ∧
          load K [] second mixed = load K [] none mixed) := by
  intro one both first second large mixed
  let merged : Table := [("Max_Board_Size", .int 5), ("MAX_BOARD_SIZE", .int 3)]
  have honeText : Text.Utf8.text one.toUTF8.toList = .ok one.toList := by cbv
  have hbothText : Text.Utf8.text both.toUTF8.toList = .ok both.toList := by cbv
  have hone : fileEntries first = .ok [("Max_Board_Size", .int 5)] :=
    fileEntries_json honeText (by cbv)
  have hboth : fileEntries second = .ok [("Max_Board_Size", .int 9), ("MAX_BOARD_SIZE", .int 3)] :=
    fileEntries_json hbothText (by cbv)
  have hfirst : Table.update [("Max_Board_Size", .int 5)] large = merged := by
    simp [large, merged, Table.update, Table.insert]
  have hsecond : Table.update [("Max_Board_Size", .int 9), ("MAX_BOARD_SIZE", .int 3)] mixed =
      merged := by
    simp [mixed, merged, Table.update, Table.insert]
  have hthree : ofTable [("max_board_size", .int 3)] = .ok { maxSide := 3 } := rfl
  have hfive : ofTable [("max_board_size", .int 5)] = .ok { maxSide := 5 } := rfl
  have hmixed : fold "Max_Board_Size" = "max_board_size" := fold_eq (by decide)
  have hlarge : fold "MAX_BOARD_SIZE" = "max_board_size" := fold_eq (by decide)
  refine ⟨⟨load_size hboth ?_ hthree, load_size rfl ?_ hfive⟩, fun K hm hl h => ?_⟩
  · rw [hsecond]
    simp [Keywords.normalized, Keywords.value?, Keywords.folded, fieldNames, merged, hmixed, hlarge]
  · exact normalized_singleton (by decide) (by simp [Keywords.folded, hmixed]) _
  · have hsame : load K [] first large = load K [] second mixed := by
      rw [load_eq hone, load_eq hboth, hfirst, hsecond]
    have hdirect : load K [] none large = .ok { maxSide := 3 } :=
      load_size rfl (normalized_singleton (by decide) hl _) hthree
    have hdirect' : load K [] none mixed = .ok { maxSide := 5 } :=
      load_size rfl (normalized_singleton (by decide) hm _) hfive
    rw [h.1, h.2, hdirect, hdirect'] at hsame
    have hsides : (3 : Nat) = 5 := congrArg maxSide (Except.ok.inj hsame)
    omega

end Trazo.Settings
