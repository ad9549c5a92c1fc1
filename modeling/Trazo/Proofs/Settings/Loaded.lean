import Mathlib.Tactic.Common
import Trazo.Proofs.Speed.Selection
import Trazo.Settings.Validation

/-!
What settings hold that were made from a table of values.

Each field is what its value stands for, or the default where it has none, and it is within the
bounds of the field. A table of delays that is accepted has the names of the speeds for keys and no
others.
-/

namespace Trazo.Settings

variable {α : Type} {t u : Table} {key : String} {v : Option Value} {w : Value} {default a : α}

/-! ### What a value stands for -/

/-- The default without a value, and else what the value stands for. -/
def Yields (v : Option Value) (default : α) (stands : Value → α → Prop) (a : α) : Prop :=
  v.elim (a = default) (stands · a)

/-- A number that the value or the default is, from `least` to `greatest`. -/
structure Limited (v : Option Value) (default least : Nat) (greatest : Option Nat) (n : Nat) :
    Prop where
  yields : Yields v default (fun w n => integer w = .ok (n : Int)) n
  least_le : least ≤ n
  le_greatest : ∀ g ∈ greatest, n ≤ g

/-- A table that has the delay of each speed under its name, and nothing else. -/
def Tabulates (w : Value) (d : Delays) : Prop :=
  ∃ es : Table, w = .table es ∧
    ∀ k, (es.get? k).map integer = (Speed.ofName? k).map fun x => .ok (d.get x : Int)

/-- Settings made from the values of their fields. -/
structure Loaded (value : String → Option Value) (s : Settings) : Prop where
  maxSteps : Limited (value "max_execution_steps") 100000 1 none s.maxSteps
  maxDepth : Limited (value "max_recursion_depth") 1000 1 none s.maxDepth
  maxRepeat : Limited (value "max_repeat_count") 10000 0 none s.maxRepeat
  maxNumber : Limited (value "max_number_literal") 1000000 0 none s.maxNumber
  maxNesting : Limited (value "max_nesting_depth") 100 1 (some 150) s.maxNesting
  minSide : Limited (value "min_board_size") 1 1 none s.minSide
  maxSide : Limited (value "max_board_size") 50 1 none s.maxSide
  minSide_le_maxSide : s.minSide ≤ s.maxSide
  speed : Yields (value "default_speed") .normal (fun w x => w = .text x.name) s.speed
  delays : Yields (value "speed_delays_ms") {} Tabulates s.delays
  logLevel : Yields (value "log_level") .warning (fun w l => w = .text l.name) s.logLevel

/-! ### Single fields -/

lemma Yields.imp {stands stands' : Value → α → Prop} (h : Yields v default stands a)
    (himp : ∀ w, stands w a → stands' w a) : Yields v default stands' a := by
  cases v with
  | none => exact h
  | some w => exact himp w h

lemma field_of_none {read : Value → Except Cause α} (h : t.get? key = none) :
    field t key default read = (default, []) := by
  simp [field, h]

lemma yields_field {read : Value → Except Cause α} (h : (field t key default read).2 = []) :
    Yields (t.get? key) default (fun w a => read w = .ok a) (field t key default read).1 := by
  cases hv : t.get? key with
  | none => simp [Yields, field_of_none hv]
  | some w => cases hread : read w <;> simp_all [Yields, field]

lemma bounded_eq_ok {least n : Nat} {greatest : Option Nat} (h : bounded least greatest w = .ok n) :
    integer w = .ok (n : Int) ∧ least ≤ n ∧ ∀ g ∈ greatest, n ≤ g := by
  unfold bounded at h
  cases hw : integer w with
  | error c => simp [hw, bind, Except.bind] at h
  | ok m =>
    by_cases hlow : m < least
    · simp [hw, hlow, bind, Except.bind, throw, throwThe, MonadExceptOf.throw] at h
    · have hcast : (m.toNat : Int) = m := Int.toNat_of_nonneg (by omega)
      cases greatest with
      | none =>
        obtain rfl : m.toNat = n := by
          simpa [hw, hlow, bind, Except.bind, pure, Except.pure] using h
        exact ⟨by rw [hcast], by omega, by simp⟩
      | some g =>
        by_cases hhigh : m > g
        · simp [hw, hlow, hhigh, bind, Except.bind, throw, throwThe, MonadExceptOf.throw] at h
        · obtain rfl : m.toNat = n := by
            simpa [hw, hlow, hhigh, bind, Except.bind, pure, Except.pure] using h
          exact ⟨by rw [hcast], by omega, by simp; omega⟩

lemma limited_field {d least : Nat} {greatest : Option Nat} (hleast : least ≤ d)
    (hgreatest : ∀ g ∈ greatest, d ≤ g) (h : (field t key d (bounded least greatest)).2 = []) :
    Limited (t.get? key) d least greatest (field t key d (bounded least greatest)).1 := by
  have hyields := yields_field h
  cases hv : t.get? key with
  | none =>
    rw [field_of_none hv]
    exact ⟨rfl, hleast, hgreatest⟩
  | some w =>
    rw [hv] at hyields
    obtain ⟨hinteger, hlow, hhigh⟩ := bounded_eq_ok hyields
    exact ⟨hinteger, hlow, hhigh⟩

lemma eq_text_of_named {all : List α} {name : α → String} (h : named all name w = .ok a) :
    w = .text (name a) := by
  cases w with
  | text s =>
    simp only [named] at h
    split at h
    · rename_i b hb
      cases h
      have hname := List.find?_some hb
      rw [beq_iff_eq.mp hname]
    · cases h
  | null | bool | int | float | moment | list | table => simp [named] at h

lemma yields_named {all : List α} {name : α → String}
    (h : (field t key default (named all name)).2 = []) :
    Yields (t.get? key) default (fun w a => w = .text (name a))
      (field t key default (named all name)).1 :=
  (yields_field h).imp fun _ => eq_text_of_named

/-! ### Delays -/

lemma delay_of_right {e : String × Value} (h : (delay key e).2 = []) :
    ∃ x n, e.1 = x.name ∧ integer e.2 = .ok n ∧ (delay key e).1 = [(x, n)] := by
  obtain ⟨name, w⟩ := e
  simp only [delay] at h ⊢
  cases hx : named Speed.all Speed.name (.text name) with
  | error c => simp [hx] at h
  | ok x =>
    cases hn : integer w with
    | error c => simp [hn] at h
    | ok n =>
      refine ⟨x, n, ?_, rfl, rfl⟩
      simpa using eq_text_of_named hx

/-- The delays that are read are those in the table, speed by speed, and no key is left over. -/
lemma map_integer_get?_eq {es : Table} (h : ∀ e ∈ es, (delay key e).2 = []) (k : String) :
    (es.get? k).map integer =
      (Speed.ofName? k).bind fun x =>
        (delayOf (es.flatMap fun e => (delay key e).1) x).map .ok := by
  induction es with
  | nil => cases Speed.ofName? k <;> rfl
  | cons e es ih =>
    obtain ⟨x, n, hname, hn, hread⟩ := delay_of_right (h e List.mem_cons_self)
    have ih := ih fun e he => h e (List.mem_cons_of_mem _ he)
    rw [List.flatMap_cons, hread]
    by_cases hk : e.1 = k
    · have hx : Speed.ofName? k = some x := Speed.ofName?_eq_some_iff.mpr (hk ▸ hname)
      simp [Table.get?, hk, hx, hn, delayOf]
    · have hget : Table.get? (e :: es) k = Table.get? es k := by simp [Table.get?, hk]
      rw [hget, ih]
      -- a speed found under `k` is not the one of the first entry
      refine Option.bind_congr fun y hy => ?_
      have hxy : x ≠ y := by
        rintro rfl
        exact hk (hname.trans (Speed.ofName?_eq_some_iff.mp hy).symm)
      simp [delayOf, hxy]

/-- Delays that are complete and not negative are those of the settings made from them. -/
lemma delayOf_eq {ds : List (Speed × Int)} (hmissing : missingDelays ds = [])
    (hnonneg : ∀ d ∈ ds, 0 ≤ d.2) (x : Speed) :
    delayOf ds x = some ((assembleDelays ds).get x : Int) := by
  have hsome : (delayOf ds x).isSome := by
    have hall : ∀ y ∈ [Speed.fast, .instant, .normal, .slow], (delayOf ds y).isSome := by
      intro y hy
      have := List.filter_eq_nil_iff.mp (List.map_eq_nil_iff.mp hmissing) y hy
      simpa [Option.isSome_iff_ne_none] using this
    exact hall x (by cases x <;> decide)
  obtain ⟨n, hn⟩ := Option.isSome_iff_exists.mp hsome
  obtain ⟨d, hd, rfl⟩ := Option.map_eq_some_iff.mp hn
  have hpos := hnonneg d (List.mem_of_find?_eq_some hd)
  have hget : (assembleDelays ds).get x = ((delayOf ds x).getD 0).toNat := by cases x <;> rfl
  rw [hget, hn, Option.getD_some, Int.toNat_of_nonneg hpos]

lemma assembleDelays_defaultDelays : assembleDelays defaultDelays = {} := by decide

lemma yields_delayField (h : (delayField t key).2 = [])
    (hmissing : missingDelays (delayField t key).1 = [])
    (hnonneg : ∀ d ∈ (delayField t key).1, 0 ≤ d.2) :
    Yields (t.get? key) {} Tabulates (assembleDelays (delayField t key).1) := by
  unfold delayField at h hmissing hnonneg ⊢
  cases hv : t.get? key with
  | none => exact assembleDelays_defaultDelays
  | some w =>
    simp only [hv] at h hmissing hnonneg ⊢
    cases w with
    | table es =>
      simp only [List.flatMap_map, List.flatMap_eq_nil_iff] at h hmissing hnonneg ⊢
      refine ⟨es, rfl, fun k => ?_⟩
      rw [map_integer_get?_eq h k]
      cases Speed.ofName? k with
      | none => rfl
      | some x =>
        rw [Option.bind_some, delayOf_eq hmissing hnonneg x, Option.map_some, Option.map_some]
    | null | bool | int | float | text | moment | list => simp at h

/-! ### All fields -/

lemma inconsistency_eq_none {minSide maxSide : Nat} {ds : List (Speed × Int)}
    (h : inconsistency minSide maxSide ds = none) :
    minSide ≤ maxSide ∧ missingDelays ds = [] ∧ ∀ d ∈ ds, 0 ≤ d.2 := by
  unfold inconsistency at h
  split at h
  · cases h
  · split at h
    · cases h
    · split at h
      · cases h
      · rename_i hsides hmissing hnegative
        refine ⟨by omega, by simpa using hmissing, fun d hd => ?_⟩
        have := List.any_eq_false.mp (Bool.not_eq_true _ ▸ hnegative) d hd
        simpa using this

/-- **Settings hold what their table gives**, each field within its bounds. -/
theorem loaded_of_ofTable {s : Settings} (h : ofTable t = .ok s) : Loaded t.get? s := by
  simp only [ofTable] at h
  split at h
  · cases h
  · rename_i hcomplaints
    simp only [Bool.not_eq_true', Bool.not_eq_false, List.isEmpty_iff,
      List.append_eq_nil_iff] at hcomplaints
    obtain ⟨⟨⟨⟨⟨⟨⟨⟨⟨h1, h2⟩, h3⟩, h4⟩, h5⟩, h6⟩, h7⟩, h8⟩, h9⟩, h10⟩ := hcomplaints
    split at h
    · cases h
    · rename_i hconsistent
      cases h
      obtain ⟨hsides, hmissing, hnonneg⟩ := inconsistency_eq_none hconsistent
      exact {
        maxSteps := limited_field (by decide) (by simp) h1
        maxDepth := limited_field (by decide) (by simp) h2
        maxRepeat := limited_field (by decide) (by simp) h3
        maxNumber := limited_field (by decide) (by simp) h4
        maxNesting := limited_field (by decide) (by simp) h5
        minSide := limited_field (by decide) (by simp) h6
        maxSide := limited_field (by decide) (by simp) h7
        minSide_le_maxSide := hsides
        speed := yields_named h8
        delays := yields_delayField h9 hmissing hnonneg
        logLevel := yields_named h10 }

/-- Tables in which the same is found give the same, but that the complaint about all fields
together tells of the table that was given. -/
theorem ofTable_congr (h : ∀ k, t.get? k = u.get? k) :
    ofTable t = ofTable u ∨
      ∃ text, ofTable t = .error [⟨[], .rule text, .table t⟩] ∧
        ofTable u = .error [⟨[], .rule text, .table u⟩] := by
  have hfield : ∀ {β : Type} (key : String) (d : β) (read : Value → Except Cause β),
      field t key d read = field u key d read := fun key d read => by simp only [field, h]
  have hdelays : ∀ key, delayField t key = delayField u key := fun key => by
    simp only [delayField, h]
  simp only [ofTable, hfield, hdelays]
  split
  · exact .inl rfl
  · split
    · rename_i text _
      exact .inr ⟨text, rfl, rfl⟩
    · exact .inl rfl

end Trazo.Settings
