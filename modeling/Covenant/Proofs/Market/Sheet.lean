/-
# Sheets are loaded exactly

A row converts on its own, `Market.Converts`, if its kind is known and its
value, its dates and its currencies can be read. A sheet is loaded exactly if
every row converts and no two are of one observable; then the market data have
one entry for each row and nothing else, so the order of the rows leaves no
trace. Otherwise the answer is the fault of the first row that does not convert
or is of an observable that came before.

Key definitions: `Market.SheetRow.Names`, `Market.Converts`, `Market.addRow`.
Key theorems: `Market.SheetRow.key_eq_ok`, `Market.addRow_eq_ok`,
`Market.addRows_eq_ok`, `Market.addRows_eq_error`, `Market.rows_loaded_exactly`.
-/
import Covenant.Market.Sheet
import Covenant.Proofs.Except
import Covenant.Proofs.Observable
import Covenant.Proofs.Ordered
import Covenant.Proofs.Text.Blank
import Mathlib.Data.List.Perm.Basic

namespace Covenant

namespace Market

/-! ### Rows -/

namespace SheetRow

/-- The observable that a row names: its `kind` is one of three words, in any case; the name of an
exchange rate is two codes of currencies, in any case, and a slash between them. -/
inductive Names (r : SheetRow) : ObservableKey → Prop where
  | fixing {start finish : Date} : Text.lower r.kind = "fixing" →
      Date.readSlash r.start = .ok start → Date.readSlash r.finish = .ok finish →
      Names r (.fixing r.name start finish)
  | spot {front back : String} {base quoted : Currency} {on : Date} : Text.lower r.kind = "fx" →
      r.name.toList = front.toList ++ '/' :: back.toList → '/' ∉ front.toList →
      Text.upper (Text.trim front) = base.code → Text.upper (Text.trim back) = quoted.code →
      Date.readSlash r.start = .ok on → Names r (.spot base quoted on)
  | quote {on : Date} : Text.lower r.kind = "quote" → Date.readSlash r.start = .ok on →
      Names r (.quote r.name on)

theorem date_eq_ok {s : String} {d : Date} : date s = .ok d ↔ Date.readSlash s = .ok d :=
  mapError_eq_ok

theorem key_eq_ok {r : SheetRow} {key : ObservableKey} : r.key = .ok key ↔ r.Names key := by
  constructor
  · intro h
    unfold SheetRow.key at h
    split at h
    · rename_i hkind
      obtain ⟨start, hstart, h⟩ := bind_eq_ok.mp h
      obtain ⟨finish, hfinish, h⟩ := bind_eq_ok.mp h
      cases h
      exact .fixing hkind (date_eq_ok.mp hstart) (date_eq_ok.mp hfinish)
    · rename_i hkind
      split at h
      · cases h
      · rename_i front back hname
        obtain ⟨base, hbase, h⟩ := bind_eq_ok.mp h
        obtain ⟨quoted, hquoted, h⟩ := bind_eq_ok.mp h
        obtain ⟨on, hon, h⟩ := bind_eq_ok.mp h
        cases h
        obtain ⟨hname, hfront⟩ := Text.splitAt?_eq_some.mp hname
        exact .spot hkind hname hfront (Currency.read_eq_ok.mp (mapError_eq_ok.mp hbase))
          (Currency.read_eq_ok.mp (mapError_eq_ok.mp hquoted)) (date_eq_ok.mp hon)
    · rename_i hkind
      obtain ⟨on, hon, h⟩ := bind_eq_ok.mp h
      cases h
      exact .quote hkind (date_eq_ok.mp hon)
    · cases h
  · intro h
    unfold SheetRow.key
    cases h with
    | fixing hkind hstart hfinish =>
      rw [hkind]
      simp only [date_eq_ok.mpr hstart, date_eq_ok.mpr hfinish]
      rfl
    | @spot front back base quoted on hkind hname hfront hbase hquoted hon =>
      rw [hkind]
      simp only [Text.splitAt?_eq_some.mpr ⟨hname, hfront⟩, date_eq_ok.mpr hon,
        mapError_eq_ok.mpr (Currency.read_eq_ok.mpr hbase),
        mapError_eq_ok.mpr (Currency.read_eq_ok.mpr hquoted)]
      rfl
    | quote hkind hon =>
      rw [hkind]
      simp only [date_eq_ok.mpr hon]
      rfl

theorem entry_eq_ok {r : SheetRow} {e : ObservableKey × Decimal} :
    r.entry = .ok e ↔ r.Names e.1 ∧ Decimal.read r.value = .ok e.2 := by
  rw [← key_eq_ok]
  constructor
  · intro h
    obtain ⟨value, hvalue, h⟩ := bind_eq_ok.mp h
    obtain ⟨key, hkey, h⟩ := bind_eq_ok.mp h
    cases h
    exact ⟨hkey, mapError_eq_ok.mp hvalue⟩
  · rintro ⟨hkey, hvalue⟩
    exact bind_eq_ok.mpr ⟨e.2, mapError_eq_ok.mpr hvalue, bind_eq_ok.mpr ⟨e.1, hkey, rfl⟩⟩

end SheetRow

/-- The entry that a row of a file comes to, or the `SheetError` if the row or what it says cannot
be read. -/
def entryOf (row : Except SheetError SheetRow) : Except SheetError (ObservableKey × Decimal) :=
  row >>= SheetRow.entry

/-- A row of a file can be read, and `e` is the observable it names with the value it gives. -/
def Converts (row : Except SheetError SheetRow) (e : ObservableKey × Decimal) : Prop :=
  ∃ r, row = .ok r ∧ r.Names e.1 ∧ Decimal.read r.value = .ok e.2

theorem entryOf_eq_ok {row : Except SheetError SheetRow} {e : ObservableKey × Decimal} :
    entryOf row = .ok e ↔ Converts row e :=
  bind_eq_ok.trans (exists_congr fun _ => and_congr_right fun _ => SheetRow.entry_eq_ok)

/-! ### One row -/

/-- Adds one row to market data, unless its key has a value already: then it is a `duplicate`. -/
def addRow (m : Market) (row : Except SheetError SheetRow) : Except SheetError Market := do
  let e ← entryOf row
  match m.get? e.1 with
  | some previous => .error (.duplicate e.1 previous e.2)
  | none => .ok (m.insert e.1 e.2)

/-- Rows are added one after the other, each by `addRow`. -/
theorem addRows_cons (m : Market) (row : Except SheetError SheetRow)
    (rest : List (Except SheetError SheetRow)) :
    addRows m (row :: rest) = addRow m row >>= fun m' => addRows m' rest := by
  rw [addRows]
  unfold addRow entryOf
  cases row with
  | error e => rfl
  | ok r =>
    show (r.entry >>= _) = (r.entry >>= _) >>= _
    cases r.entry with
    | error e => rfl
    | ok e =>
      show (match m.get? e.1 with | some previous => _ | none => _) =
        (match m.get? e.1 with | some previous => _ | none => _) >>= _
      cases m.get? e.1 <;> rfl

/-- A row is added exactly if it `Converts` to an entry with a new key. -/
theorem addRow_eq_ok {m m' : Market} {row : Except SheetError SheetRow} :
    addRow m row = .ok m' ↔ ∃ e, Converts row e ∧ e.1 ∉ m.keys ∧ m' = m.insert e.1 e.2 := by
  have hstep : ∀ e : ObservableKey × Decimal,
      (match m.get? e.1 with
        | some previous => .error (.duplicate e.1 previous e.2)
        | none => .ok (m.insert e.1 e.2) : Except SheetError Market) = .ok m' ↔
      e.1 ∉ m.keys ∧ m' = m.insert e.1 e.2 := by
    intro e
    by_cases hmem : e.1 ∈ m.keys
    · obtain ⟨previous, hprevious⟩ := OrderedMap.get?_of_mem_keys hmem
      simp [hprevious, hmem]
    · simp [OrderedMap.get?_of_not_mem_keys hmem, hmem, eq_comm]
  unfold addRow
  rw [bind_eq_ok]
  exact exists_congr fun e => and_congr entryOf_eq_ok (hstep e)

/-- A row is refused exactly if it does not convert, or as a `duplicate` for the value that its key
has. -/
theorem addRow_eq_error {m : Market} {row : Except SheetError SheetRow} {fault : SheetError} :
    addRow m row = .error fault ↔ entryOf row = .error fault ∨
      ∃ e previous, Converts row e ∧ m.get? e.1 = some previous ∧
        fault = .duplicate e.1 previous e.2 := by
  unfold addRow
  rw [bind_eq_error]
  apply or_congr_right
  apply exists_congr
  intro e
  rw [entryOf_eq_ok]
  cases m.get? e.1 with
  | some previous => simp [eq_comm]
  | none => simp

/-! ### All rows -/

/-- **Rows are added exactly if each converts** and all keys are new and different. -/
theorem addRows_eq_ok {m' : Market} : ∀ {rows : List (Except SheetError SheetRow)} {m : Market},
    addRows m rows = .ok m' ↔ ∃ entries, List.Forall₂ Converts rows entries ∧
      (entries.map Prod.fst).Nodup ∧ (∀ e ∈ entries, e.1 ∉ m.keys) ∧ m' = m.insertAll entries
  | [], m => by
    constructor
    · rintro ⟨⟩
      exact ⟨[], .nil, List.nodup_nil, fun e he => absurd he List.not_mem_nil, rfl⟩
    · rintro ⟨entries, hrows, -, -, rfl⟩
      cases hrows
      rfl
  | row :: rest, m => by
    rw [addRows_cons, bind_eq_ok]
    constructor
    · rintro ⟨m₁, hrow, hrest⟩
      obtain ⟨e, hconverts, hnew, rfl⟩ := addRow_eq_ok.mp hrow
      obtain ⟨entries, hentries, hnodup, hfresh, rfl⟩ := addRows_eq_ok.mp hrest
      simp only [OrderedMap.mem_keys_insert, not_or] at hfresh
      refine ⟨e :: entries, .cons hconverts hentries, ?_, ?_, rfl⟩
      · rw [List.map_cons, List.nodup_cons]
        refine ⟨fun hmem => ?_, hnodup⟩
        obtain ⟨x, hx, heq⟩ := List.mem_map.mp hmem
        exact (hfresh x hx).1 heq
      · rw [List.forall_mem_cons]
        exact ⟨hnew, fun x hx => (hfresh x hx).2⟩
    · rintro ⟨entries, hrows, hnodup, hfresh, rfl⟩
      obtain ⟨e, tail, hconverts, htail, rfl⟩ := List.forall₂_cons_left_iff.mp hrows
      rw [List.map_cons, List.nodup_cons] at hnodup
      rw [List.forall_mem_cons] at hfresh
      refine ⟨_, addRow_eq_ok.mpr ⟨e, hconverts, hfresh.1, rfl⟩, ?_⟩
      refine addRows_eq_ok.mpr ⟨tail, htail, hnodup.2, fun x hx => ?_, rfl⟩
      rw [OrderedMap.mem_keys_insert, not_or]
      exact ⟨fun heq => hnodup.1 (heq ▸ List.mem_map_of_mem hx), hfresh.2 x hx⟩

/-- **The fault of rows** is that of the first row that `addRow` refuses after those before it were
added. -/
theorem addRows_eq_error {fault : SheetError} :
    ∀ {rows : List (Except SheetError SheetRow)} {m : Market},
    addRows m rows = .error fault ↔ ∃ front row rest m', rows = front ++ row :: rest ∧
      addRows m front = .ok m' ∧ addRow m' row = .error fault
  | [], m => by
    constructor
    · nofun
    · rintro ⟨front, row, rest, m', h, -⟩
      simp at h
  | row :: rest, m => by
    rw [addRows_cons, bind_eq_error]
    constructor
    · rintro (hrow | ⟨m₁, hrow, hrest⟩)
      · exact ⟨[], row, rest, m, rfl, rfl, hrow⟩
      · obtain ⟨front, row', rest', m', rfl, hfront, hfault⟩ := addRows_eq_error.mp hrest
        refine ⟨row :: front, row', rest', m', rfl, ?_, hfault⟩
        rw [addRows_cons]
        exact bind_eq_ok.mpr ⟨m₁, hrow, hfront⟩
    · rintro ⟨front, row', rest', m', hrows, hfront, hfault⟩
      cases front with
      | nil =>
        cases hrows
        cases hfront
        exact .inl hfault
      | cons first front =>
        obtain ⟨rfl, rfl⟩ := List.cons.inj hrows
        rw [addRows_cons] at hfront
        obtain ⟨m₁, hrow, hfront⟩ := bind_eq_ok.mp hfront
        exact .inr ⟨m₁, hrow, addRows_eq_error.mpr ⟨front, row', rest', m', rfl, hfront, hfault⟩⟩

/-- Rows make market data exactly if each `Converts` and all keys are different. -/
theorem addRows_empty_eq_ok {m : Market} {rows : List (Except SheetError SheetRow)} :
    addRows OrderedMap.empty rows = .ok m ↔ ∃ entries, List.Forall₂ Converts rows entries ∧
      (entries.map Prod.fst).Nodup ∧ m = .ofList entries := by
  rw [addRows_eq_ok]
  apply exists_congr
  intro entries
  simp [OrderedMap.ofList, OrderedMap.keys, OrderedMap.empty]

/-- Rows make no market data for the first of them that does not convert, or that has the key of a
row before it. -/
theorem addRows_empty_eq_error {fault : SheetError} {rows : List (Except SheetError SheetRow)} :
    addRows OrderedMap.empty rows = .error fault ↔ ∃ front row rest entries,
      rows = front ++ row :: rest ∧ List.Forall₂ Converts front entries ∧
      (entries.map Prod.fst).Nodup ∧
      (entryOf row = .error fault ∨ ∃ key previous value, Converts row (key, value) ∧
        (key, previous) ∈ entries ∧ fault = .duplicate key previous value) := by
  rw [addRows_eq_error]
  constructor
  · rintro ⟨front, row, rest, m, hrows, hfront, hfault⟩
    obtain ⟨entries, hentries, hnodup, rfl⟩ := addRows_empty_eq_ok.mp hfront
    refine ⟨front, row, rest, entries, hrows, hentries, hnodup, ?_⟩
    refine (addRow_eq_error.mp hfault).imp_right ?_
    rintro ⟨⟨key, value⟩, previous, hrow, hprevious, rfl⟩
    have hmem := OrderedMap.mem_of_mem_ofList (OrderedMap.mem_of_get?_eq_some hprevious)
    exact ⟨key, previous, value, hrow, hmem, rfl⟩
  · rintro ⟨front, row, rest, entries, hrows, hentries, hnodup, hfault⟩
    refine ⟨front, row, rest, .ofList entries, hrows,
      addRows_empty_eq_ok.mpr ⟨entries, hentries, hnodup, rfl⟩, addRow_eq_error.mpr ?_⟩
    refine hfault.imp_right ?_
    rintro ⟨key, previous, value, hrow, hmem, rfl⟩
    have hentry := (OrderedMap.ofList_perm hnodup).mem_iff.mpr hmem
    exact ⟨(key, value), previous, hrow, OrderedMap.get?_of_mem_entries hentry, rfl⟩

/-- A row converts to one entry only. -/
theorem Converts.unique {rows : List (Except SheetError SheetRow)}
    {entries entries' : List (ObservableKey × Decimal)} (h : List.Forall₂ Converts rows entries)
    (h' : List.Forall₂ Converts rows entries') : entries = entries' := by
  induction h generalizing entries' with
  | nil => cases h'; rfl
  | cons hrow _ ih =>
    cases h' with
    | cons hrow' hrest' =>
      have heq := (entryOf_eq_ok.mpr hrow).symm.trans (entryOf_eq_ok.mpr hrow')
      rw [Except.ok.inj heq, ih hrest']

/-- The order of the rows leaves no trace: `addRows` comes to the same market data. -/
theorem addRows_perm {m : Market} {rows rows' : List (Except SheetError SheetRow)}
    (hperm : rows'.Perm rows) (h : addRows OrderedMap.empty rows = .ok m) :
    addRows OrderedMap.empty rows' = .ok m := by
  obtain ⟨entries, hrows, hnodup, rfl⟩ := addRows_empty_eq_ok.mp h
  obtain ⟨entries', hrows', hentries⟩ := List.perm_comp_forall₂ hperm hrows
  have hnodup' : (entries'.map Prod.fst).Nodup := (hentries.map _).nodup_iff.mpr hnodup
  refine addRows_empty_eq_ok.mpr ⟨entries', hrows', hnodup', ?_⟩
  exact (Reordered.of_perm hentries hnodup').ofList_eq.symm

/-- **A sheet is loaded exactly, in whatever order its rows come.** `addRows` to no market data
succeeds exactly if each row `Converts` on its own, to `entries` in which no two have the same key.
The market data `m` then have one entry for each row: `m.get?` of its key is its value, and any
other key has none; and the same rows in any other order, also those that `sheetRows` has of a file,
are loaded to the same. Rows that are not loaded are refused for the first of them that does not
convert, with the fault of `entryOf`, or that has the key of a row before it, as a `duplicate`. -/
theorem rows_loaded_exactly (rows : List (Except SheetError SheetRow)) :
    ((∃ m, addRows OrderedMap.empty rows = .ok m) ↔
      ∃ entries, List.Forall₂ Converts rows entries ∧ (entries.map Prod.fst).Nodup) ∧
    (∀ m entries, addRows OrderedMap.empty rows = .ok m → List.Forall₂ Converts rows entries →
      m.size = rows.length ∧ m.entries.Perm entries ∧
      (∀ key value, m.get? key = some value ↔ (key, value) ∈ entries) ∧
      (∀ key, m.get? key = none ↔ key ∉ entries.map Prod.fst) ∧
      (∀ rows', rows'.Perm rows → addRows OrderedMap.empty rows' = .ok m) ∧
      ∀ bytes, (sheetRows bytes).Perm rows → readSheet bytes = .ok m) ∧
    ∀ fault, addRows OrderedMap.empty rows = .error fault ↔
      ∃ front row rest entries, rows = front ++ row :: rest ∧
        List.Forall₂ Converts front entries ∧ (entries.map Prod.fst).Nodup ∧
        (entryOf row = .error fault ∨ ∃ key previous value, Converts row (key, value) ∧
          (key, previous) ∈ entries ∧ fault = .duplicate key previous value) := by
  refine ⟨?_, fun m entries hm hentries => ?_, fun fault => addRows_empty_eq_error⟩
  · constructor
    · rintro ⟨m, hm⟩
      obtain ⟨entries, hrows, hnodup, -⟩ := addRows_empty_eq_ok.mp hm
      exact ⟨entries, hrows, hnodup⟩
    · rintro ⟨entries, hrows, hnodup⟩
      exact ⟨_, addRows_empty_eq_ok.mpr ⟨entries, hrows, hnodup, rfl⟩⟩
  · obtain ⟨entries', hrows, hnodup, hofList⟩ := addRows_empty_eq_ok.mp hm
    obtain rfl := Converts.unique hrows hentries
    have hperm : m.entries.Perm entries' := hofList ▸ OrderedMap.ofList_perm hnodup
    refine ⟨?_, hperm, fun key value => ?_, fun key => ?_, fun rows' h => addRows_perm h hm,
      fun bytes h => addRows_perm h hm⟩
    · exact hperm.length_eq.trans hrows.length_eq.symm
    · rw [← hperm.mem_iff]
      exact (OrderedMap.mem_entries_iff (e := (key, value))).symm
    · rw [← (hperm.map Prod.fst).mem_iff]
      exact OrderedMap.get?_eq_none_iff

/-- A row of each kind; words and codes are in either case. -/
def mixedRows : List (Except SheetError SheetRow) :=
  [.ok ⟨"Fixing", "LIBOR", "01/07/2015", "01/10/2015", "0.0031"⟩,
    .ok ⟨"FX", "eur/USD", "01/04/2015", "", "1.0765"⟩,
    .ok ⟨"quote", "VIX", "01/04/2015", "", "15.29"⟩]

/-- What `mixedRows` convert to. -/
def mixedEntries : List (ObservableKey × Decimal) :=
  [(.fixing "LIBOR" (.literal 2015 7 1) (.literal 2015 10 1), .literal 31 4),
    (.spot .eur .usd (.literal 2015 4 1), .literal 10765 4),
    (.quote "VIX" (.literal 2015 4 1), .literal 1529 2)]

/-- The rows are loaded from the last to the first as well. The exchange rate once more, in other
letters, is a `duplicate`. -/
theorem mixedRows_loaded : List.Forall₂ Converts mixedRows mixedEntries ∧
    (∃ m, addRows OrderedMap.empty mixedRows = .ok m ∧
      addRows OrderedMap.empty mixedRows.reverse = .ok m ∧
      m.get? (.spot .eur .usd (.literal 2015 4 1)) = some (.literal 10765 4)) ∧
    addRows OrderedMap.empty (mixedRows ++ [.ok ⟨"fx", "EUR/usd", "1/4/2015", "", "2"⟩]) =
      .error (.duplicate (.spot .eur .usd (.literal 2015 4 1)) (.literal 10765 4)
        (.literal 2 0)) := by
  have hrows : List.Forall₂ Converts mixedRows mixedEntries :=
    .cons (entryOf_eq_ok.mp (by decide +kernel)) <| .cons (entryOf_eq_ok.mp (by decide +kernel)) <|
      .cons (entryOf_eq_ok.mp (by decide +kernel)) .nil
  have hnodup : (mixedEntries.map Prod.fst).Nodup := by decide +kernel
  have hagain : Converts (.ok ⟨"fx", "EUR/usd", "1/4/2015", "", "2"⟩)
      (.spot .eur .usd (.literal 2015 4 1), .literal 2 0) :=
    entryOf_eq_ok.mp (by decide +kernel)
  obtain ⟨m, hm⟩ := (rows_loaded_exactly mixedRows).1.mpr ⟨mixedEntries, hrows, hnodup⟩
  obtain ⟨-, -, hget, -, hperm, -⟩ := (rows_loaded_exactly mixedRows).2.1 m mixedEntries hm hrows
  refine ⟨hrows, ⟨m, hm, hperm _ (List.reverse_perm _), (hget _ _).mpr (by decide +kernel)⟩, ?_⟩
  exact ((rows_loaded_exactly _).2.2 _).mpr
    ⟨mixedRows, _, [], mixedEntries, rfl, hrows, hnodup,
      .inr ⟨_, _, _, hagain, by decide +kernel, rfl⟩⟩

end Market
end Covenant
