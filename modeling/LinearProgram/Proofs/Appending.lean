import LinearProgram.Matrix.Entries
import Mathlib.Data.List.Forall2

/-!
# Appending rows

The entries of a matrix are kept in three lists, and a row is appended to one list after the other. Lists
whose lengths differ are refused before that, but numbers are converted on the way: a column number or a
value that cannot be converted leaves the lists before it longer than those after it.

`Entries.Appended` lists what appending a row can come to, and `appended` says that the list is complete.
The main statement is `append_account`: rows whose numbers can all be converted are appended as a whole or
refused as a whole, the others tear the lists, and the lists of a matrix have one length exactly if no row
tore them. After that nothing more can be read from it.
-/

namespace LinearProgram

namespace Entries

/-! ## §1 Converting the numbers of a list -/

section Conversion

variable {α : Type} {f : Number → Except Fault α} {ns : List Number}

/-- Without a fault, all numbers of the list were converted. -/
theorem mapM_of_convert {as : List α} (h : convert f ns = (as, none)) : ns.mapM f = .ok as := by
  -- along the list: the conversion has stopped nowhere, so each number converts
  induction ns generalizing as with
  | nil =>
    cases h
    rfl
  | cons n rest ih =>
    unfold convert at h
    cases hn : f n with
    | error fault =>
      rw [hn] at h
      cases h
    | ok a =>
      rw [hn] at h
      cases hrest : convert f rest with
      | mk bs fault =>
        rw [hrest] at h
        cases h
        rw [List.mapM_cons, hn, ih hrest]
        rfl

/-- With a fault, the numbers before one were converted, and this one has the fault. -/
theorem stopped_of_convert {as : List α} {fault : Fault} (h : convert f ns = (as, some fault)) :
    ∃ before bad after, ns = before ++ bad :: after ∧ before.mapM f = .ok as ∧ f bad = .error fault := by
  induction ns generalizing as with
  | nil => cases h
  | cons n rest ih =>
    unfold convert at h
    cases hn : f n with
    | error fault' =>
      rw [hn] at h
      cases h
      -- the very first number is the bad one
      exact ⟨[], n, rest, rfl, rfl, hn⟩
    | ok a =>
      rw [hn] at h
      cases hrest : convert f rest with
      | mk bs fault' =>
        rw [hrest] at h
        cases h
        -- the bad number lies further on
        obtain ⟨before, bad, after, rfl, hbefore, hbad⟩ := ih hrest
        refine ⟨n :: before, bad, after, rfl, ?_, hbad⟩
        rw [List.mapM_cons, hn, hbefore]
        rfl

/-- As many numbers come out as went in. -/
theorem length_of_mapM {as : List α} (h : ns.mapM f = .ok as) : as.length = ns.length := by
  induction ns generalizing as with
  | nil =>
    cases h
    rfl
  | cons n rest ih =>
    rw [List.mapM_cons] at h
    cases hn : f n with
    | error fault =>
      rw [hn] at h
      cases h
    | ok a =>
      cases hrest : rest.mapM f with
      | error fault =>
        rw [hn, hrest] at h
        cases h
      | ok bs =>
        rw [hn, hrest] at h
        cases h
        rw [List.length_cons, List.length_cons, ih hrest]

/-- All numbers of a list can be converted exactly if each can. -/
theorem mapM_isOk_iff : (∃ as, ns.mapM f = .ok as) ↔ ∀ n ∈ ns, (f n).isOk = true := by
  induction ns with
  | nil => simp [pure, Except.pure]
  | cons n rest ih =>
    rw [List.forall_mem_cons, ← ih, List.mapM_cons]
    cases hn : f n with
    -- one number that does not convert spoils the whole list
    | error fault => exact iff_of_false (fun h => nomatch h.choose_spec) (fun h => nomatch h.1)
    | ok a =>
      cases hrest : rest.mapM f with
      | error fault => exact iff_of_false (fun h => nomatch h.choose_spec) (fun h => nomatch h.2.choose_spec)
      | ok bs => exact iff_of_true ⟨a :: bs, rfl⟩ ⟨rfl, bs, rfl⟩

end Conversion

/-! ## §2 Appending one row -/

/-- A row to be appended: its number, and a column number and a value for each coefficient. -/
structure Row where
  number : Int
  columns : List Number
  values : List Number

namespace Row

/-- The row has a column for each value. -/
def Fits (r : Row) : Prop := r.columns.length = r.values.length

/-- All numbers of the row can be converted. -/
def Converts (r : Row) : Prop :=
  (∀ n ∈ r.columns, n.toInteger.isOk = true) ∧ ∀ n ∈ r.values, n.toDouble.isOk = true

/-- Appending the row stops on the way. -/
def Tears (r : Row) : Prop := r.Fits ∧ ¬ r.Converts

instance (r : Row) : Decidable r.Fits := inferInstanceAs (Decidable (_ = _))

instance (r : Row) : Decidable r.Converts := inferInstanceAs (Decidable (_ ∧ _))

instance (r : Row) : Decidable r.Tears := inferInstanceAs (Decidable (_ ∧ _))

/-- The entries are those of the row, one for each position. -/
def Gives (r : Row) (es : List Entry) : Prop :=
  List.Forall₂ (fun p e => e.row = r.number ∧ p.1.toInteger = .ok e.column ∧ p.2.toDouble = .ok e.value)
    (r.columns.zip r.values) es

end Row

/-- Append a row. -/
def appendRow (e : Entries) (r : Row) : Entries × Option Fault := e.append r.number r.columns r.values

/-- The lists with an entry for each member of a list at their ends. -/
def extended (e : Entries) (es : List Entry) : Entries :=
  ⟨e.rows ++ es.map (·.row), e.columns ++ es.map (·.column), e.values ++ es.map (·.value)⟩

/-- What appending a row comes to: the lists after it, and the fault with which it ends. -/
inductive Appended (e : Entries) (r : Row) : Entries × Option Fault → Prop
  | refused (h : ¬ r.Fits) : Appended e r (e, some (.entryLengths r.columns.length r.values.length))
  | stored {es} (h : r.Fits) (hes : r.Gives es) : Appended e r (e.extended es, none)
  | tornAtColumn {before bad after cs fault} (h : r.Fits) (hr : r.columns = before ++ bad :: after)
      (hcs : before.mapM Number.toInteger = .ok cs) (hbad : bad.toInteger = .error fault) :
    Appended e r
      (⟨e.rows ++ List.replicate r.columns.length r.number, e.columns ++ cs, e.values⟩, some fault)
  | tornAtValue {before bad after cs vs fault} (h : r.Fits) (hcs : r.columns.mapM Number.toInteger = .ok cs)
      (hr : r.values = before ++ bad :: after) (hvs : before.mapM Number.toDouble = .ok vs)
      (hbad : bad.toDouble = .error fault) :
    Appended e r
      (⟨e.rows ++ List.replicate r.columns.length r.number, e.columns ++ cs, e.values ++ vs⟩, some fault)

/-- Columns and values that could all be converted are entries of the row. -/
private theorem gives_of_mapM (i : Int) {columns values : List Number} {cs : List Int} {vs : List Float}
    (h : columns.length = values.length) (hcs : columns.mapM Number.toInteger = .ok cs)
    (hvs : values.mapM Number.toDouble = .ok vs) :
    ∃ es, Row.Gives ⟨i, columns, values⟩ es ∧ es.map (·.row) = List.replicate columns.length i ∧
      es.map (·.column) = cs ∧ es.map (·.value) = vs := by
  induction columns generalizing values cs vs with
  | nil =>
    obtain rfl : values = [] := List.length_eq_zero_iff.mp h.symm
    cases hcs
    cases hvs
    exact ⟨[], .nil, rfl, rfl, rfl⟩
  | cons c columns ih =>
    obtain ⟨v, values, rfl⟩ : ∃ v rest, values = v :: rest := by
      cases values with
      | nil => cases h
      | cons v rest => exact ⟨v, rest, rfl⟩
    rw [List.mapM_cons] at hcs hvs
    -- both lists were converted to their ends, so neither the first numbers nor the rests have a fault
    cases hc : c.toInteger with
    | error fault =>
      rw [hc] at hcs
      cases hcs
    | ok j =>
    cases hv : v.toDouble with
    | error fault =>
      rw [hv] at hvs
      cases hvs
    | ok x =>
    cases hrestc : columns.mapM Number.toInteger with
    | error fault =>
      rw [hc, hrestc] at hcs
      cases hcs
    | ok cs' =>
    cases hrestv : values.mapM Number.toDouble with
    | error fault =>
      rw [hv, hrestv] at hvs
      cases hvs
    | ok vs' =>
    rw [hc, hrestc] at hcs
    rw [hv, hrestv] at hvs
    cases hcs
    cases hvs
    obtain ⟨es, hgives, hrows, rfl, rfl⟩ := ih (Nat.succ.inj h) hrestc hrestv
    exact ⟨⟨i, j, x⟩ :: es, .cons ⟨rfl, hc, hv⟩ hgives, by simp [hrows, List.replicate_succ], rfl, rfl⟩

/-- **Appending a row comes to one of the things in the list.** -/
theorem appended (e : Entries) (r : Row) : Appended e r (e.appendRow r) := by
  unfold appendRow append
  by_cases hfits : r.columns.length = r.values.length
  · rw [if_neg (not_not_intro hfits)]
    -- all columns are converted before the first value is
    rcases hc : convert Number.toInteger r.columns with ⟨cs, fault | fault⟩
    · have hcs := mapM_of_convert hc
      rcases hv : convert Number.toDouble r.values with ⟨vs, fault | fault⟩
      · obtain ⟨es, hgives, hrows, rfl, rfl⟩ := gives_of_mapM r.number hfits hcs (mapM_of_convert hv)
        rw [← hrows]
        exact .stored hfits hgives
      · obtain ⟨before, bad, after, hr, hvs, hbad⟩ := stopped_of_convert hv
        exact .tornAtValue hfits hcs hr hvs hbad
    · obtain ⟨before, bad, after, hr, hcs, hbad⟩ := stopped_of_convert hc
      exact .tornAtColumn hfits hr hcs hbad
  · rw [if_pos hfits]
    exact .refused hfits

/-! ## §3 All or nothing -/

/-- Either all entries of the row are appended, one for each position, or the lists stay as they are. -/
def Whole (e : Entries) (r : Row) : Prop :=
  (∃ es, r.Gives es ∧ es.length = r.columns.length ∧ e.appendRow r = (e.extended es, none)) ∨
    ∃ fault, e.appendRow r = (e, some fault)

namespace Row

variable {r : Row}

theorem Gives.length_eq {es : List Entry} (h : r.Gives es) (hfits : r.Fits) : es.length = r.columns.length := by
  unfold Fits at hfits
  rw [← List.Forall₂.length_eq h, List.length_zip, ← hfits, Nat.min_self]

/-- A row that gives entries has numbers that can all be converted. -/
theorem Gives.converts {es : List Entry} (h : r.Gives es) (hfits : r.Fits) : r.Converts := by
  -- a number of the row stands in one of the pairs, since there are as many columns as values
  have hmem : ∀ p ∈ r.columns.zip r.values, p.1.toInteger.isOk = true ∧ p.2.toDouble.isOk = true := by
    intro p hp
    obtain ⟨i, hi, rfl⟩ := List.getElem_of_mem hp
    have hi' : i < es.length := List.Forall₂.length_eq h ▸ hi
    obtain ⟨-, hcolumn, hvalue⟩ := (List.forall₂_iff_get.mp h).2 i hi hi'
    exact ⟨congrArg Except.isOk hcolumn, congrArg Except.isOk hvalue⟩
  constructor
  · intro n hn
    rw [← List.map_fst_zip (Nat.le_of_eq hfits)] at hn
    obtain ⟨p, hp, rfl⟩ := List.mem_map.mp hn
    exact (hmem p hp).1
  · intro n hn
    rw [← List.map_snd_zip (Nat.le_of_eq hfits.symm)] at hn
    obtain ⟨p, hp, rfl⟩ := List.mem_map.mp hn
    exact (hmem p hp).2

/-- A column number that cannot be converted tears the row. -/
theorem tears_of_column {before bad after fault} (h : r.Fits) (hr : r.columns = before ++ bad :: after)
    (hbad : bad.toInteger = .error fault) : r.Tears := by
  refine ⟨h, fun hc => ?_⟩
  have hok := hc.1 bad (hr ▸ List.mem_append_right _ (List.mem_cons_self ..))
  rw [hbad] at hok
  cases hok

/-- A value that cannot be converted tears the row. -/
theorem tears_of_value {before bad after fault} (h : r.Fits) (hr : r.values = before ++ bad :: after)
    (hbad : bad.toDouble = .error fault) : r.Tears := by
  refine ⟨h, fun hc => ?_⟩
  have hok := hc.2 bad (hr ▸ List.mem_append_right _ (List.mem_cons_self ..))
  rw [hbad] at hok
  cases hok

/-- The entries that a row leaves if it does not tear the lists: its own, or none if it is refused. -/
def Leaves (r : Row) (es : List Entry) : Prop := if r.Fits then r.Gives es else es = []

end Row

/-- A row that does not tear the lists is refused or stored. -/
theorem Appended.settled {e : Entries} {r : Row} {after : Entries × Option Fault} (h : Appended e r after)
    (hno : ¬ r.Tears) :
    (¬ r.Fits ∧ ∃ fault, after = (e, some fault)) ∨
      ∃ es, r.Fits ∧ r.Gives es ∧ after = (e.extended es, none) := by
  cases h with
  | refused h => exact Or.inl ⟨h, _, rfl⟩
  | stored h hes => exact Or.inr ⟨_, h, hes, rfl⟩
  -- the two torn outcomes are excluded by the hypothesis
  | tornAtColumn h hr hcs hbad => exact absurd (Row.tears_of_column h hr hbad) hno
  | tornAtValue h hcs hr hvs hbad => exact absurd (Row.tears_of_value h hr hbad) hno

/-- How many row numbers and values the lists have gained. -/
structure Gained (e : Entries) (k v : Nat) (e' : Entries) : Prop where
  rows : e'.rows.length = e.rows.length + k
  values : e'.values.length = e.values.length + v
  le : v ≤ k

/-- A row that tears the lists brings more row numbers than values, and no other row does. -/
theorem gained_appendRow (e : Entries) (r : Row) :
    ∃ k v, Gained e k v (e.appendRow r).1 ∧ (v < k ↔ r.Tears) := by
  have h := appended e r
  generalize e.appendRow r = after at h
  cases h with
  | refused h => exact ⟨0, 0, ⟨rfl, rfl, Nat.le_refl _⟩, iff_of_false (Nat.lt_irrefl 0) fun ht => h ht.1⟩
  | @stored es h hes =>
    refine ⟨es.length, es.length, ⟨?_, ?_, Nat.le_refl _⟩,
      iff_of_false (Nat.lt_irrefl _) fun ht => ht.2 (hes.converts h)⟩ <;> simp [extended]
  -- the rows have grown by the whole row and the values not at all
  | @tornAtColumn before bad after cs fault h hr hcs hbad =>
    have hsome : 0 < r.columns.length := by
      rw [hr, List.length_append, List.length_cons]
      omega
    refine ⟨r.columns.length, 0, ⟨by simp, rfl, Nat.zero_le _⟩, iff_of_true hsome ?_⟩
    exact Row.tears_of_column h hr hbad
  -- the values have grown by what converted before the bad one
  | @tornAtValue before bad after cs vs fault h hcs hr hvs hbad =>
    have hlt : vs.length < r.columns.length := by
      rw [length_of_mapM hvs, h, hr, List.length_append, List.length_cons]
      omega
    refine ⟨r.columns.length, vs.length, ⟨by simp, by simp, Nat.le_of_lt hlt⟩, iff_of_true hlt ?_⟩
    exact Row.tears_of_value h hr hbad

/-- **Appending a row is all or nothing unless the row tears the lists.** -/
theorem whole_iff (e : Entries) (r : Row) : Whole e r ↔ ¬ r.Tears := by
  constructor
  · intro hwhole
    -- in either case the lists have gained as many values as row numbers
    obtain ⟨k, v, hgained, htears⟩ := gained_appendRow e r
    rw [← htears]
    obtain ⟨es, -, -, hon⟩ | ⟨fault, hon⟩ := hwhole
    · rw [hon] at hgained
      have hrows := hgained.rows
      have hvalues := hgained.values
      simp only [extended, List.length_append, List.length_map] at hrows hvalues
      omega
    · rw [hon] at hgained
      have hrows : e.rows.length = e.rows.length + k := hgained.rows
      omega
  · intro hno
    obtain ⟨-, fault, hon⟩ | ⟨es, hfits, hes, hon⟩ := (appended e r).settled hno
    · exact Or.inr ⟨fault, hon⟩
    · exact Or.inl ⟨es, hes, hes.length_eq hfits, hon⟩

/-! ## §4 Appending many rows -/

/-- Append rows, one after the other, whatever comes of each. -/
def appendAll (e : Entries) (rs : List Row) : Entries := rs.foldl (fun e r => (e.appendRow r).1) e

/-- The three lists have one length. -/
structure Even (es : Entries) : Prop where
  rows : es.rows.length = es.values.length
  columns : es.columns.length = es.values.length

theorem even_extended {e : Entries} (h : e.Even) (es : List Entry) : (e.extended es).Even :=
  ⟨by simp [extended, h.rows], by simp [extended, h.columns]⟩

/-- Over a sequence of rows the lists grow by what each row leaves, and are uneven as soon as one of them
tears. -/
theorem gained_appendAll (e : Entries) (rs : List Row) :
    ∃ k v, Gained e k v (e.appendAll rs) ∧ (v < k ↔ ∃ r ∈ rs, r.Tears) := by
  -- from any entries: values that are missing are never made up for, since no row brings more of them
  induction rs generalizing e with
  | nil => exact ⟨0, 0, ⟨rfl, rfl, Nat.le_refl _⟩, by simp⟩
  | cons r rest ih =>
    obtain ⟨k₁, v₁, hfirst, htears⟩ := gained_appendRow e r
    obtain ⟨k₂, v₂, hrest, hothers⟩ := ih (e.appendRow r).1
    have hle := hfirst.le
    have hle' := hrest.le
    refine ⟨k₁ + k₂, v₁ + v₂, ⟨?_, ?_, by omega⟩, ?_⟩
    · exact hrest.rows.trans (by rw [hfirst.rows, Nat.add_assoc])
    · exact hrest.values.trans (by rw [hfirst.values, Nat.add_assoc])
    · rw [List.exists_mem_cons_iff, ← htears, ← hothers]
      omega

/-- Without a row that tears, the lists stay even and have the entries of all rows, in order. -/
theorem appendAll_of_not_tears (e : Entries) {rs : List Row} (h : ∀ r ∈ rs, ¬ r.Tears) :
    ∃ ess, List.Forall₂ Row.Leaves rs ess ∧ e.appendAll rs = e.extended ess.flatten := by
  induction rs generalizing e with
  | nil => exact ⟨[], .nil, by simp [appendAll, extended]⟩
  | cons r rest ih =>
    obtain ⟨hr, hothers⟩ := List.forall_mem_cons.mp h
    obtain ⟨ess, hess, hon⟩ := ih (e.appendRow r).1 hothers
    -- a row that does not tear is refused and leaves nothing, or is stored whole
    obtain ⟨es, hes, hfirst⟩ : ∃ es, r.Leaves es ∧ (e.appendRow r).1 = e.extended es := by
      obtain ⟨hno, fault, hon⟩ | ⟨es, hfits, hes, hon⟩ := (appended e r).settled hr
      · exact ⟨[], by rw [Row.Leaves, if_neg hno], by simp [hon, extended]⟩
      · exact ⟨es, by rwa [Row.Leaves, if_pos hfits], congrArg Prod.fst hon⟩
    refine ⟨es :: ess, .cons hes hess, ?_⟩
    show (e.appendRow r).1.appendAll rest = _
    rw [hon, hfirst]
    simp [extended]

/-- Lists of different lengths cannot be read in any shape. -/
theorem unreadable {e : Entries} (h : e.rows.length ≠ e.values.length) (rows columns : Int) :
    ∃ fault, e.coalesced rows columns = .error fault := by
  unfold coalesced
  -- a shape that is refused has a fault of its own
  split
  · exact ⟨_, rfl⟩
  split
  · exact ⟨_, rfl⟩
  split
  · exact ⟨_, rfl⟩
  rw [if_pos (Or.inl h)]
  exact ⟨_, rfl⟩

/-- **What appending rows leaves.** Each row comes to one of the things in the list, and it is all or
nothing exactly if the row does not tear the lists. After any rows, the lists have one length exactly if no
row tore them; then they hold the entries of the rows that were not refused, in order. If a row tore them,
nothing can be read any more, whatever was appended after it. -/
theorem append_account (rs : List Row) :
    (∀ (e : Entries) (r : Row), Appended e r (e.appendRow r) ∧ (Whole e r ↔ ¬ r.Tears)) ∧
      ((empty.appendAll rs).Even ↔ ∀ r ∈ rs, ¬ r.Tears) ∧
      ((∀ r ∈ rs, ¬ r.Tears) →
        ∃ ess, List.Forall₂ Row.Leaves rs ess ∧ empty.appendAll rs = empty.extended ess.flatten) ∧
      ((∃ r ∈ rs, r.Tears) →
        ∀ rows columns, ∃ fault, (empty.appendAll rs).coalesced rows columns = .error fault) := by
  obtain ⟨k, v, hgained, htears⟩ := gained_appendAll empty rs
  have hrows : (empty.appendAll rs).rows.length = k := hgained.rows.trans (Nat.zero_add k)
  have hvalues : (empty.appendAll rs).values.length = v := hgained.values.trans (Nat.zero_add v)
  have hle := hgained.le
  -- the lengths of the lists tell torn rows from whole ones: a value is missing for each torn one
  refine ⟨fun e r => ⟨appended e r, whole_iff e r⟩, ⟨fun heven r hr ht => ?_, fun hnone => ?_⟩,
    appendAll_of_not_tears empty, fun hsome => unreadable ?_⟩
  · have hlt : v < k := htears.mpr ⟨r, hr, ht⟩
    have hsame := heven.rows
    omega
  · obtain ⟨ess, -, hon⟩ := appendAll_of_not_tears empty hnone
    rw [hon]
    exact even_extended ⟨rfl, rfl⟩ _
  · have hlt : v < k := htears.mpr hsome
    omega

/-- A value that is too large for a double leaves two rows, two columns and one value, and no later row
mends this. -/
theorem torn_by_large_value :
    let torn : Row := ⟨1, [.int 1, .int 2], [.int 1, .int (Int.pow 10 400)]⟩
    let fine : Row := ⟨2, [.int 1], [.int 5]⟩
    torn.Tears ∧ ¬ fine.Tears ∧ ¬ (empty.appendAll [torn, fine]).Even ∧
      (∃ ess, List.Forall₂ Row.Leaves [fine] ess ∧ empty.appendAll [fine] = empty.extended ess.flatten) ∧
      ∀ rows columns, ∃ fault, (empty.appendAll [torn, fine]).coalesced rows columns = .error fault := by
  intro torn fine
  have htorn : torn.Tears := by decide +kernel
  have hfine : ¬ fine.Tears := by decide +kernel
  obtain ⟨-, heven, -, hunreadable⟩ := append_account [torn, fine]
  obtain ⟨-, -, hstored, -⟩ := append_account [fine]
  have hmem : torn ∈ [torn, fine] := List.mem_cons_self ..
  refine ⟨htorn, hfine, fun h => heven.mp h torn hmem htorn, hstored ?_, hunreadable ⟨torn, hmem, htorn⟩⟩
  -- the only row there is fits
  intro r hr
  rwa [List.mem_singleton.mp hr]

/-- A row whose second column number is NaN is neither appended as a whole nor left out, and after it there
are no triplets any more. -/
theorem not_whole_of_nan_column :
    let r : Row := ⟨1, [.int 1, .float Double.nan], [.int 1, .int 1]⟩
    let fine : Row := ⟨2, [.int 1], [.int 5]⟩
    ¬ Whole empty r ∧ ¬ (empty.appendAll [r]).Even ∧
      (empty.appendAll [r, fine]).triplets.toOption = none := by
  intro r fine
  have htears : r.Tears := by decide +kernel
  refine ⟨fun h => (whole_iff empty r).mp h htears, fun h => ?_, by decide +kernel⟩
  have hlengths : (empty.appendAll [r]).rows.length ≠ (empty.appendAll [r]).values.length := by
    decide +kernel
  exact hlengths h.rows

end Entries

end LinearProgram
