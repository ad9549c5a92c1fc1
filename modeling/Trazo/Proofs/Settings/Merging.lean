import Mathlib.Data.List.Nodup
import Trazo.Settings.Sources

/-!
What the tables that settings are made from hold.

A table is known by what is found under its keys and by the order of its keys. Both are followed
through the tables of the environment and of the values given directly, whatever the case of their
keys, and through the merge of the two.
-/

namespace Trazo

namespace Table

variable {t u : Table} {p : String → Bool} {j k : String} {v : Value} {e : String × Value}

/-- The entries under some of the keys. -/
def keep (p : String → Bool) (t : Table) : Table := t.filter fun e => p e.1

/-! ### Look-ups -/

lemma get?_cons (e : String × Value) (t : Table) (k : String) :
    get? (e :: t) k = if e.1 = k then some e.2 else get? t k := by
  by_cases h : e.1 = k <;> simp [get?, h]

lemma get?_eq_none_iff : get? t k = none ↔ k ∉ keys t := by
  simp only [get?, keys, Option.map_eq_none_iff, List.find?_eq_none, beq_iff_eq, List.mem_map,
    not_exists, not_and]

lemma get?_keep (h : p k = true) : get? (keep p t) k = get? t k := by
  induction t with
  | nil => rfl
  | cons e t ih =>
    by_cases he : e.1 = k
    · simp [keep, get?_cons, he, h]
    · by_cases hp : p e.1 = true
      · have hkeep : keep p (e :: t) = e :: keep p t := List.filter_cons_of_pos hp
        rw [hkeep, get?_cons, get?_cons, ih]
      · have hkeep : keep p (e :: t) = keep p t := List.filter_cons_of_neg hp
        rw [hkeep, ih, get?_cons, if_neg he]

lemma insert_cons_of_ne (h : e.1 ≠ k) (t : Table) (v : Value) :
    insert (e :: t) k v = e :: insert t k v := by
  simp [insert, h]

lemma get?_insert (t : Table) (k : String) (v : Value) (j : String) :
    get? (insert t k v) j = if k = j then some v else get? t j := by
  induction t with
  | nil => simp [insert, get?_cons]
  | cons e t ih =>
    by_cases he : e.1 = k
    · by_cases hj : k = j <;> simp [insert, get?_cons, he, hj]
    · by_cases hj : e.1 = j
      · subst hj
        simp [insert_cons_of_ne he, get?_cons, Ne.symm he]
      · simp [insert_cons_of_ne he, get?_cons, hj, ih]

/-! ### Parts of a table -/

lemma keep_insert (p : String → Bool) (t : Table) (k : String) (v : Value) :
    keep p (insert t k v) = if p k then insert (keep p t) k v else keep p t := by
  induction t with
  | nil => by_cases hk : p k = true <;> simp [keep, insert, hk]
  | cons e t ih =>
    by_cases he : e.1 = k
    · by_cases hk : p k = true <;> simp [keep, insert, he, hk]
    · simp only [keep] at ih
      by_cases hp : p e.1 = true <;> by_cases hk : p k = true <;>
        simp [keep, insert_cons_of_ne he, hp, hk, ih]

/-- What is kept of an update comes from what is kept of both tables. -/
lemma keep_update (p : String → Bool) (t u : Table) :
    keep p (update t u) = update (keep p t) (keep p u) := by
  induction u generalizing t with
  | nil => rfl
  | cons e u ih =>
    have hstep : update t (e :: u) = update (insert t e.1 e.2) u := rfl
    rw [hstep, ih, keep_insert]
    by_cases hp : p e.1 = true <;> simp [keep, update, hp]

lemma insert_ne_nil (t : Table) (k : String) (v : Value) : insert t k v ≠ [] := by
  cases t with
  | nil => simp [insert]
  | cons e t => by_cases he : e.1 = k <;> simp [insert, he]

lemma update_ne_nil (h : t ≠ []) : update t u ≠ [] := by
  induction u generalizing t with
  | nil => exact h
  | cons e u ih => exact ih (insert_ne_nil t e.1 e.2)

/-! ### Keys -/

lemma keys_insert (t : Table) (k : String) (v : Value) :
    keys (insert t k v) = if k ∈ keys t then keys t else keys t ++ [k] := by
  induction t with
  | nil => simp [insert, keys]
  | cons e t ih =>
    by_cases he : e.1 = k
    · simp [insert, keys, he]
    · simp only [keys] at ih
      by_cases hk : k ∈ t.map (·.1) <;>
        simp [keys, insert_cons_of_ne he, ih, hk, Ne.symm he]

lemma nodup_keys_insert (h : (keys t).Nodup) (k : String) (v : Value) :
    (keys (insert t k v)).Nodup := by
  rw [keys_insert]
  split
  · exact h
  · rename_i hk
    simpa using h.concat hk

/-- A table is its keys, in their order, and what is found under them. -/
lemma eq_of_keys_eq_of_get?_eq (ht : (keys t).Nodup) (hkeys : keys t = keys u)
    (hget : ∀ k, get? t k = get? u k) : t = u := by
  induction t generalizing u with
  | nil => exact (List.map_eq_nil_iff.mp hkeys.symm).symm
  | cons e t ih =>
    cases u with
    | nil => simp [keys] at hkeys
    | cons d u =>
      obtain ⟨hhead, htail⟩ : e.1 = d.1 ∧ keys t = keys u := by simpa [keys] using hkeys
      obtain ⟨hnot, ht⟩ : e.1 ∉ keys t ∧ (keys t).Nodup := by simpa [keys] using ht
      have hvalue : e.2 = d.2 := by simpa [get?_cons, hhead] using hget e.1
      have hrest : ∀ k, get? t k = get? u k := by
        intro k
        by_cases hk : e.1 = k
        · rw [← hk, get?_eq_none_iff.mpr hnot, get?_eq_none_iff.mpr (htail ▸ hnot)]
        · simpa [get?_cons, hk, hhead ▸ hk] using hget k
      rw [Prod.ext hhead hvalue, ih ht htail hrest]

end Table

namespace Settings

open Table (keep)

variable {t t' u given : Table} {key k : String} {vars vars' : List (String × String)}

/-! ### Merging -/

/-- A value in the place of another, if there is one. -/
def onto : Option Value → Value → Value
  | none, v => v
  | some old, v => mergeValue old v

lemma mergeTables_cons (t : Table) (e : String × Value) (u : Table) :
    mergeTables t (e :: u) = mergeTables (t.insert e.1 (onto (t.get? e.1) e.2)) u := by
  rw [mergeTables]
  cases t.get? e.1 <;> rfl

/-- What is found in a merged table: what was there before, with all values under the key put onto
it in turn. -/
lemma get?_mergeTables (t u : Table) (k : String) :
    (mergeTables t u).get? k =
      (keep (· == k) u).foldl (fun old e => some (onto old e.2)) (t.get? k) := by
  induction u generalizing t with
  | nil => rw [mergeTables]; rfl
  | cons e u ih =>
    rw [mergeTables_cons, ih, Table.get?_insert]
    by_cases he : e.1 = k <;> simp [keep, he]

lemma keys_mergeTables_congr (h : t.keys = t'.keys) (u : Table) :
    (mergeTables t u).keys = (mergeTables t' u).keys := by
  induction u generalizing t t' with
  | nil => simpa only [mergeTables] using h
  | cons e u ih =>
    simp only [mergeTables_cons]
    exact ih (by simp only [Table.keys_insert, h])

lemma nodup_keys_mergeTables (h : t.keys.Nodup) (u : Table) : (mergeTables t u).keys.Nodup := by
  induction u generalizing t with
  | nil => simpa only [mergeTables] using h
  | cons e u ih =>
    rw [mergeTables_cons]
    exact ih (Table.nodup_keys_insert h _ _)

/-- A value is replaced, if no table is put onto a table. -/
lemma onto_eq_self {old : Option Value} (h : ∀ w, old ≠ some (.table w)) (v : Value) :
    onto old v = v := by
  cases old with
  | none => rfl
  | some o =>
    cases v with
    | table new =>
      cases o with
      | table w => exact absurd rfl (h w)
      | null | bool | int | float | text | moment | list => simp only [onto, mergeValue]
    | null | bool | int | float | text | moment | list => simp only [onto, mergeValue]

/-! ### Rows of a table -/

/-- The rows of a table that gives each key of a list its value, if it has one. -/
def rows (g : String → Option Value) (ks : List String) : Table :=
  ks.filterMap fun key => (g key).map fun v => (key, v)

lemma rows_cons (g : String → Option Value) (key : String) (ks : List String) :
    rows g (key :: ks) = ((g key).map fun v => (key, v)).toList ++ rows g ks := by
  cases h : g key <;> simp [rows, h]

lemma keep_rows {ks : List String} (hks : ks.Nodup) (g : String → Option Value) (k : String) :
    keep (· == k) (rows g ks) = if k ∈ ks then ((g k).map fun v => (k, v)).toList else [] := by
  induction ks with
  | nil => rfl
  | cons j ks ih =>
    obtain ⟨hj, hks⟩ := List.nodup_cons.mp hks
    have hsplit : keep (· == k) (rows g (j :: ks)) =
        keep (· == k) ((g j).map fun v => (j, v)).toList ++ keep (· == k) (rows g ks) := by
      rw [rows_cons, keep, List.filter_append, keep, keep]
    rw [hsplit, ih hks]
    by_cases hjk : j = k
    · subst hjk
      cases g j <;> simp [keep, hj]
    · have hkj : k ≠ j := fun h => hjk h.symm
      cases g j <;> simp [keep, hjk, hkj]

lemma get?_rows {ks : List String} (hks : ks.Nodup) (g : String → Option Value) (k : String) :
    (rows g ks).get? k = if k ∈ ks then g k else none := by
  rw [← Table.get?_keep (p := (· == k)) (by simp), keep_rows hks]
  split
  · cases g k <;> simp [Table.get?]
  · rfl

lemma keys_rows_sublist (g : String → Option Value) (ks : List String) :
    (rows g ks).keys.Sublist ks := by
  induction ks with
  | nil => exact .slnil
  | cons j ks ih =>
    rw [rows_cons]
    cases g j with
    | none => exact ih.cons j
    | some v => exact ih.cons_cons j

lemma keys_rows_congr {g g' : String → Option Value} {ks : List String}
    (h : ∀ key ∈ ks, (g key).isSome = (g' key).isSome) : (rows g ks).keys = (rows g' ks).keys := by
  induction ks with
  | nil => rfl
  | cons j ks ih =>
    have hj := h j List.mem_cons_self
    have ih := ih fun key hkey => h key (List.mem_cons_of_mem j hkey)
    rw [rows_cons, rows_cons]
    cases hg : g j <;> cases hg' : g' j <;> simp_all [Table.keys]

/-! ### The environment -/

lemma nodup_fieldNames : fieldNames.Nodup := by decide

/-- What the environment holds for a field. -/
def heldFor (vars : List (String × String)) (key : String) :
    Except EnvironmentFault (Option Value) :=
  match textOf? vars key with
  | none => .ok none
  | some text => environmentValue key text

lemma heldFor_of_ne (h : key ≠ "speed_delays_ms") :
    heldFor vars key = .ok ((textOf? vars key).map .text) := by
  rw [heldFor]
  cases textOf? vars key <;> simp [environmentValue, h]

/-- Adds what the environment holds for a field to a table. -/
def addHeld (vars : List (String × String)) (t : Table) (key : String) :
    Except EnvironmentFault Table :=
  (heldFor vars key).map fun v => t ++ (v.map fun v => (key, v)).toList

lemma environment_eq (vars : List (String × String)) :
    environment vars = fieldNames.foldlM (addHeld vars) [] := by
  rw [environment]
  congr 1
  funext t key
  rw [addHeld, heldFor]
  cases textOf? vars key with
  | none => simp [Except.map]
  | some text =>
    rcases h : environmentValue key text with f | o
    · simp [h, Except.map]
    · cases o <;> simp [h, Except.map]

lemma foldlM_addHeld {g : String → Option Value} {ks : List String}
    (h : ∀ key ∈ ks, heldFor vars key = .ok (g key)) (t : Table) :
    ks.foldlM (addHeld vars) t = .ok (t ++ rows g ks) := by
  induction ks generalizing t with
  | nil => simp [rows, pure, Except.pure]
  | cons j ks ih =>
    have hj : addHeld vars t j = .ok (t ++ ((g j).map fun v => (j, v)).toList) := by
      rw [addHeld, h j List.mem_cons_self]
      rfl
    rw [List.foldlM_cons, hj, rows_cons, ← List.append_assoc]
    exact ih (fun key hkey => h key (List.mem_cons_of_mem j hkey)) _

/-- Only the delays can be at fault, and else the environment gives each field what it holds. -/
lemma environment_cases (vars : List (String × String)) :
    (∃ f, heldFor vars "speed_delays_ms" = .error f ∧ environment vars = .error f) ∨
      ∃ g, (∀ key, heldFor vars key = .ok (g key)) ∧
        environment vars = .ok (rows g fieldNames) := by
  cases hdelays : heldFor vars "speed_delays_ms" with
  | ok o =>
    have hheld : ∀ key, heldFor vars key =
        .ok (if key = "speed_delays_ms" then o else (textOf? vars key).map .text) := by
      intro key
      by_cases hkey : key = "speed_delays_ms"
      · rw [if_pos hkey, hkey, hdelays]
      · rw [if_neg hkey, heldFor_of_ne hkey]
    refine .inr ⟨_, hheld, ?_⟩
    rw [environment_eq, foldlM_addHeld fun key _ => hheld key, List.nil_append]
  | error f =>
    refine .inl ⟨f, rfl, ?_⟩
    have hsplit : fieldNames = fieldNames.take 8 ++ "speed_delays_ms" :: ["log_level"] := rfl
    have hbefore : ∀ key ∈ fieldNames.take 8,
        heldFor vars key = .ok ((textOf? vars key).map .text) := by
      have hne : ∀ key ∈ fieldNames.take 8, key ≠ "speed_delays_ms" := by decide
      exact fun key hkey => heldFor_of_ne (hne key hkey)
    rw [environment_eq, hsplit, List.foldlM_append, foldlM_addHeld hbefore]
    simp only [List.foldlM_cons, addHeld, hdelays]
    rfl

end Settings

end Trazo
