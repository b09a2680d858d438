/-
# Maps and sets as lists

What an ordered map or set holds, and that building one from entries that are in
order already gives back the same list. Sets with the same members are equal,
and so are maps that were put together from the same entries, whichever came
first, as long as those of one key came in the same order: `Reordered l l'`
makes `ofList l = ofList l'`.

Key definitions: `OrderedMap.mapValues`, `OrderedMap.Related`, `Reordered`.
Key theorems: `OrderedSet.mem_ofList`, `OrderedSet.members_ofList`,
`OrderedSet.eq_of_mem_iff`, `OrderedMap.keys_insert_of_mem`,
`OrderedMap.get?_of_mem_keys`, `OrderedMap.mem_keys_insert`,
`OrderedMap.get?_insert`, `OrderedMap.entries_ofList`,
`OrderedMap.mem_of_mem_ofList`, `OrderedMap.eq_of_get?_eq`,
`OrderedMap.ofList_perm`, `Reordered.ofList_eq`, `OrderedMap.Related.get?`,
`OrderedMap.Related.insert`.
-/
import Covenant.Ordered.Map
import Covenant.Ordered.Set
import Mathlib.Data.List.Forall2

namespace Covenant

/-- Lists in strictly increasing order of `key` are equal if they have the same elements. -/
theorem eq_of_increasing {α κ : Type} [Ord κ] [Std.TransOrd κ] (key : α → κ) {l l' : List α}
    (hl : l.Pairwise fun a b => compare (key a) (key b) = .lt)
    (hl' : l'.Pairwise fun a b => compare (key a) (key b) = .lt) (h : ∀ x, x ∈ l ↔ x ∈ l') :
    l = l' := by
  have hne : ∀ {a b : α}, compare (key a) (key b) = .lt → a ≠ b := by
    rintro a _ hlt rfl
    rw [Std.ReflOrd.compare_self] at hlt
    cases hlt
  have hperm : l.Perm l' := (List.perm_ext_iff_of_nodup (hl.imp hne) (hl'.imp hne)).mpr h
  refine hperm.eq_of_pairwise (fun a b _ _ hab hba => ?_) hl hl'
  rw [Std.OrientedCmp.gt_of_lt hab] at hba
  cases hba

/-! ### Sets -/

namespace OrderedSet

variable {κ : Type} [Ord κ]

theorem contains_iff [Std.LawfulEqOrd κ] {s : OrderedSet κ} {x : κ} :
    s.contains x = true ↔ x ∈ s.members := by
  simp [contains]

theorem mem_insertMember_iff [Std.LawfulEqOrd κ] {x y : κ} : ∀ {l : List κ},
    y ∈ insertMember x l ↔ y = x ∨ y ∈ l
  | [] => by simp [insertMember]
  | z :: rest => by
    unfold insertMember
    split
    · simp
    · rename_i heq
      have hxz : x = z := Std.LawfulEqCmp.eq_of_compare heq
      simp [hxz]
    · rw [List.mem_cons, mem_insertMember_iff, List.mem_cons]
      exact or_left_comm

theorem mem_foldl_insert [Std.TransOrd κ] [Std.LawfulEqOrd κ] {y : κ} : ∀ {l : List κ}
    {s : OrderedSet κ}, y ∈ (l.foldl insert s).members ↔ y ∈ l ∨ y ∈ s.members
  | [], s => by simp
  | x :: rest, s => by
    rw [List.foldl_cons, mem_foldl_insert, insert, mem_insertMember_iff, List.mem_cons,
      or_left_comm, or_assoc]

/-- The set of a list has the elements of the list. -/
theorem mem_ofList [Std.TransOrd κ] [Std.LawfulEqOrd κ] {y : κ} {l : List κ} :
    y ∈ (ofList l).members ↔ y ∈ l := by
  simp [ofList, mem_foldl_insert, empty]

/-- The union has the members of both. -/
theorem mem_union [Std.TransOrd κ] [Std.LawfulEqOrd κ] {y : κ} {s t : OrderedSet κ} :
    y ∈ (s.union t).members ↔ y ∈ s.members ∨ y ∈ t.members := by
  rw [union, mem_foldl_insert, or_comm]

/-- Sets with the same members are equal. -/
theorem eq_of_mem_iff [Std.TransOrd κ] {s t : OrderedSet κ}
    (h : ∀ x, x ∈ s.members ↔ x ∈ t.members) : s = t := by
  have hmembers := eq_of_increasing id s.increasing t.increasing h
  cases s
  cases t
  cases hmembers
  rfl

theorem insertMember_of_gt [Std.OrientedOrd κ] {x : κ} : ∀ {l : List κ},
    (∀ y ∈ l, compare y x = .lt) → insertMember x l = l ++ [x]
  | [], _ => rfl
  | y :: rest, h => by
    have hgt := Std.OrientedCmp.gt_of_lt (h y List.mem_cons_self)
    unfold insertMember
    rw [hgt]
    simp [insertMember_of_gt fun z hz => h z (List.mem_cons_of_mem _ hz)]

theorem members_foldl_insert [Std.TransOrd κ] : ∀ (l : List κ) (s : OrderedSet κ),
    (s.members ++ l).Pairwise (fun a b => compare a b = .lt) →
    (l.foldl insert s).members = s.members ++ l
  | [], s, _ => by simp
  | x :: rest, s, h => by
    have hgt : ∀ y ∈ s.members, compare y x = .lt := fun y hy =>
      (List.pairwise_append.mp h).2.2 y hy x List.mem_cons_self
    have hs : (s.insert x).members = s.members ++ [x] := insertMember_of_gt hgt
    rw [List.foldl_cons, members_foldl_insert rest _ (by rw [hs]; simpa using h), hs]
    simp

/-- A list in order is the members of its set. -/
theorem members_ofList [Std.TransOrd κ] {l : List κ}
    (h : l.Pairwise fun a b => compare a b = .lt) : (ofList l).members = l :=
  members_foldl_insert l empty h

/-- The set of a set's members is the set. -/
theorem ofList_members [Std.TransOrd κ] (s : OrderedSet κ) : ofList s.members = s := by
  have h := members_ofList s.increasing
  obtain ⟨l, hl⟩ := s
  cases hs : ofList l
  simp_all

theorem ofList_replicate [Std.TransOrd κ] (x : κ) :
    ∀ n, ofList (List.replicate (n + 1) x) = empty.insert x
  | 0 => rfl
  | n + 1 => by
    have hinsert : (empty.insert x).insert x = empty.insert x := by
      simp [insert, empty, insertMember]
    have hfold := ofList_replicate x n
    rw [ofList, List.replicate_succ, List.foldl_cons] at hfold ⊢
    rw [List.replicate_succ, List.foldl_cons, hinsert]
    exact hfold

end OrderedSet

/-! ### Maps -/

namespace OrderedMap

variable {κ ν : Type} [Ord κ]

@[ext] theorem ext {m m' : OrderedMap κ ν} (h : m.entries = m'.entries) : m = m' := by
  cases m; cases m'; cases h; rfl

/-- Rebinding a key leaves the keys as they are. -/
theorem keys_insertEntry_of_mem [Std.TransOrd κ] [Std.LawfulEqOrd κ] {key : κ} {value : ν} :
    ∀ {l : List (κ × ν)}, l.Pairwise (fun a b => compare a.1 b.1 = .lt) → key ∈ l.map (·.1) →
    (insertEntry key value l).map (·.1) = l.map (·.1)
  | [], _, h => by simp at h
  | entry :: rest, hl, h => by
    unfold insertEntry
    split
    · -- the key would have to stand before the first entry
      rename_i hlt
      exfalso
      rcases List.mem_cons.mp h with rfl | h
      · simp at hlt
      · obtain ⟨e, he, rfl⟩ := List.mem_map.mp h
        have hgt := Std.OrientedCmp.gt_of_lt ((List.pairwise_cons.mp hl).1 e he)
        rw [hlt] at hgt
        cases hgt
    · rename_i heq
      have hkey : key = entry.1 := Std.LawfulEqCmp.eq_of_compare heq
      simp [hkey]
    · rename_i hgt
      rcases List.mem_cons.mp h with rfl | h
      · simp at hgt
      · rw [List.map_cons, List.map_cons, keys_insertEntry_of_mem hl.of_cons h]

theorem keys_insert_of_mem [Std.TransOrd κ] [Std.LawfulEqOrd κ] {m : OrderedMap κ ν} {key : κ}
    {value : ν} (h : key ∈ m.keys) : (m.insert key value).keys = m.keys :=
  keys_insertEntry_of_mem m.increasing h

theorem mem_of_get?_eq_some [Std.LawfulEqOrd κ] {m : OrderedMap κ ν} {key : κ} {value : ν}
    (h : m.get? key = some value) : (key, value) ∈ m.entries := by
  obtain ⟨⟨k, v⟩, he, rfl⟩ := Option.map_eq_some_iff.mp h
  have hkey : key = k := by simpa using List.find?_some he
  rw [hkey]
  exact List.mem_of_find?_eq_some he

/-- Each of `m.keys` has a value. -/
theorem get?_of_mem_keys [Std.ReflOrd κ] {m : OrderedMap κ ν} {key : κ} (h : key ∈ m.keys) :
    ∃ value, m.get? key = some value := by
  obtain ⟨e, he, rfl⟩ := List.mem_map.mp h
  have hfound : (m.entries.find? fun x => (compare e.1 x.1).isEq).isSome := by
    rw [List.find?_isSome]
    exact ⟨e, he, by simp⟩
  obtain ⟨x, hx⟩ := Option.isSome_iff_exists.mp hfound
  exact ⟨x.2, by simp [get?, hx]⟩

/-- What is no key has no value. -/
theorem get?_of_not_mem_keys [Std.LawfulEqOrd κ] {m : OrderedMap κ ν} {key : κ}
    (h : key ∉ m.keys) : m.get? key = none := by
  cases hget : m.get? key with
  | none => rfl
  | some value => exact absurd (List.mem_map_of_mem (mem_of_get?_eq_some hget)) h

theorem get?_eq_none_iff [Std.LawfulEqOrd κ] {m : OrderedMap κ ν} {key : κ} :
    m.get? key = none ↔ key ∉ m.keys := by
  constructor
  · intro hnone hmem
    obtain ⟨value, hvalue⟩ := get?_of_mem_keys hmem
    rw [hnone] at hvalue
    cases hvalue
  · exact get?_of_not_mem_keys

theorem mem_keys_insertEntry [Std.LawfulEqOrd κ] {key k : κ} {value : ν} : ∀ {l : List (κ × ν)},
    k ∈ (insertEntry key value l).map (·.1) ↔ k = key ∨ k ∈ l.map (·.1)
  | [] => by simp [insertEntry]
  | entry :: rest => by
    unfold insertEntry
    split
    · simp
    · rename_i heq
      have hkey : key = entry.1 := Std.LawfulEqCmp.eq_of_compare heq
      simp [hkey]
    · rw [List.map_cons, List.mem_cons, mem_keys_insertEntry, List.map_cons, List.mem_cons]
      exact or_left_comm

/-- The keys after `insert key` are those before and `key`. -/
theorem mem_keys_insert [Std.TransOrd κ] [Std.LawfulEqOrd κ] {m : OrderedMap κ ν} {key k : κ}
    {value : ν} : k ∈ (m.insert key value).keys ↔ k = key ∨ k ∈ m.keys :=
  mem_keys_insertEntry

theorem nodup_keys [Std.ReflOrd κ] (m : OrderedMap κ ν) : m.keys.Nodup := by
  refine List.pairwise_map.mpr (m.increasing.imp fun {a b} hlt heq => ?_)
  rw [heq, Std.ReflOrd.compare_self] at hlt
  cases hlt

theorem find?_insertEntry [DecidableEq κ] [Std.LawfulEqOrd κ] (key k : κ) (value : ν) :
    ∀ l : List (κ × ν),
    (insertEntry key value l).find? (fun e => (compare k e.1).isEq) =
      if k = key then some (key, value) else l.find? fun e => (compare k e.1).isEq
  | [] => by
    by_cases hk : k = key <;> simp [insertEntry, hk]
  | entry :: rest => by
    have ih := find?_insertEntry key k value rest
    unfold insertEntry
    split
    · by_cases hk : k = key <;> simp [hk]
    · rename_i heq
      have hkey : key = entry.1 := Std.LawfulEqCmp.eq_of_compare heq
      by_cases hk : k = key
      · simp [hk]
      · have hne : k ≠ entry.1 := hkey ▸ hk
        simp [hk, hne]
    · rename_i hgt
      by_cases hentry : k = entry.1
      · have hne : k ≠ key := by
          rintro rfl
          rw [hentry, Std.ReflOrd.compare_self] at hgt
          cases hgt
        simp [hentry, hentry ▸ hne]
      · simp [hentry, ih]

/-- The values after `insert key value` are those before, except for that of `key`. -/
theorem get?_insert [DecidableEq κ] [Std.TransOrd κ] [Std.LawfulEqOrd κ] (m : OrderedMap κ ν)
    (key k : κ) (value : ν) :
    (m.insert key value).get? k = if k = key then some value else m.get? k := by
  unfold get? insert
  rw [find?_insertEntry]
  split <;> rfl

theorem find?_of_mem [Std.TransOrd κ] {e : κ × ν} : ∀ {l : List (κ × ν)},
    l.Pairwise (fun a b => compare a.1 b.1 = .lt) → e ∈ l →
    l.find? (fun x => (compare e.1 x.1).isEq) = some e
  | x :: rest, hl, h => by
    rcases List.mem_cons.mp h with rfl | h
    · simp
    · have hgt := Std.OrientedCmp.gt_of_lt ((List.pairwise_cons.mp hl).1 e h)
      rw [List.find?_cons, hgt]
      exact find?_of_mem hl.of_cons h

/-- An entry is found under its key. -/
theorem get?_of_mem_entries [Std.TransOrd κ] {m : OrderedMap κ ν} {e : κ × ν}
    (h : e ∈ m.entries) : m.get? e.1 = some e.2 := by
  rw [get?, find?_of_mem m.increasing h]
  rfl

theorem mem_entries_iff [Std.TransOrd κ] [Std.LawfulEqOrd κ] {m : OrderedMap κ ν} {e : κ × ν} :
    e ∈ m.entries ↔ m.get? e.1 = some e.2 :=
  ⟨get?_of_mem_entries, mem_of_get?_eq_some⟩

/-- Maps with the same values are equal. -/
theorem eq_of_get?_eq [Std.TransOrd κ] [Std.LawfulEqOrd κ] {m m' : OrderedMap κ ν}
    (h : ∀ key, m.get? key = m'.get? key) : m = m' :=
  ext (eq_of_increasing Prod.fst m.increasing m'.increasing fun e => by
    rw [mem_entries_iff, mem_entries_iff, h])

/-- After the entries `l` were put in, a key has the value that was put in last. -/
theorem get?_insertAll [DecidableEq κ] [Std.TransOrd κ] [Std.LawfulEqOrd κ] (key : κ) :
    ∀ (l : List (κ × ν)) (m : OrderedMap κ ν), (m.insertAll l).get? key =
      (l.filter fun e => e.1 = key).foldl (fun _ e => some e.2) (m.get? key)
  | [], m => rfl
  | e :: rest, m => by
    show ((m.insert e.1 e.2).insertAll rest).get? key = _
    rw [get?_insertAll key rest, get?_insert, List.filter_cons]
    by_cases hkey : key = e.1
    · rw [if_pos hkey, if_pos (decide_eq_true hkey.symm), List.foldl_cons]
    · rw [if_neg hkey, if_neg (by simpa using Ne.symm hkey)]

theorem insertEntry_of_gt [Std.OrientedOrd κ] {key : κ} {value : ν} : ∀ {l : List (κ × ν)},
    (∀ e ∈ l, compare e.1 key = .lt) → insertEntry key value l = l ++ [(key, value)]
  | [], _ => rfl
  | e :: rest, h => by
    have hgt := Std.OrientedCmp.gt_of_lt (h e List.mem_cons_self)
    unfold insertEntry
    rw [hgt]
    simp [insertEntry_of_gt fun x hx => h x (List.mem_cons_of_mem _ hx)]

theorem entries_insertAll [Std.TransOrd κ] : ∀ (l : List (κ × ν)) (m : OrderedMap κ ν),
    (m.entries ++ l).Pairwise (fun a b => compare a.1 b.1 = .lt) →
    (m.insertAll l).entries = m.entries ++ l
  | [], m, _ => by simp [insertAll]
  | e :: rest, m, h => by
    have hgt : ∀ x ∈ m.entries, compare x.1 e.1 = .lt := fun x hx =>
      (List.pairwise_append.mp h).2.2 x hx e List.mem_cons_self
    have hm : (m.insert e.1 e.2).entries = m.entries ++ [e] := insertEntry_of_gt hgt
    have ih := entries_insertAll rest (m.insert e.1 e.2) (by rw [hm]; simpa using h)
    rw [hm] at ih
    simpa [insertAll] using ih

/-- Entries in order are the entries of their map. -/
theorem entries_ofList [Std.TransOrd κ] {l : List (κ × ν)}
    (h : l.Pairwise fun a b => compare a.1 b.1 = .lt) : (ofList l : OrderedMap κ ν).entries = l :=
  entries_insertAll l empty h

@[simp] theorem get?_singleton [Std.TransOrd κ] (key : κ) (value : ν) :
    (ofList [(key, value)]).get? key = some value := by
  simp [ofList, insertAll, insert, insertEntry, empty, get?, Std.ReflOrd.compare_self]

@[simp] theorem insert_singleton [Std.TransOrd κ] (key : κ) (value value' : ν) :
    (ofList [(key, value)]).insert key value' = ofList [(key, value')] := by
  simp [ofList, insertAll, insert, insertEntry, empty, Std.ReflOrd.compare_self]

/-- What is in a map after the entries `l` were put in is one of them or was in it before. -/
theorem mem_of_mem_insertAll [Std.TransOrd κ] {e : κ × ν} :
    ∀ {l : List (κ × ν)} {m : OrderedMap κ ν}, e ∈ (m.insertAll l).entries → e ∈ l ∨ e ∈ m.entries
  | [], _, h => .inr h
  | (key, value) :: rest, m, h => by
    rcases mem_of_mem_insertAll (l := rest) (m := m.insert key value) h with h | h
    · exact .inl (List.mem_cons_of_mem _ h)
    · rcases mem_insertEntry h with rfl | h
      · exact .inl List.mem_cons_self
      · exact .inr h

theorem mem_of_mem_ofList [Std.TransOrd κ] {e : κ × ν}
    {l : List (κ × ν)} (h : e ∈ (ofList l : OrderedMap κ ν).entries) : e ∈ l :=
  (mem_of_mem_insertAll h).resolve_right List.not_mem_nil

/-- A new key is one more entry. -/
theorem insertEntry_perm [Std.LawfulEqOrd κ] {key : κ} {value : ν} : ∀ {l : List (κ × ν)},
    key ∉ l.map (·.1) → (insertEntry key value l).Perm ((key, value) :: l)
  | [], _ => List.Perm.refl _
  | entry :: rest, h => by
    rw [List.map_cons, List.mem_cons, not_or] at h
    unfold insertEntry
    split
    · exact List.Perm.refl _
    · rename_i heq
      exact absurd (Std.LawfulEqCmp.eq_of_compare heq) h.1
    · exact ((insertEntry_perm h.2).cons entry).trans (List.Perm.swap _ _ _)

/-- New keys, each of them once, are as many more entries. -/
theorem insertAll_perm [Std.TransOrd κ] [Std.LawfulEqOrd κ] : ∀ {l : List (κ × ν)}
    {m : OrderedMap κ ν}, (l.map (·.1)).Nodup → (∀ e ∈ l, e.1 ∉ m.keys) →
    (m.insertAll l).entries.Perm (m.entries ++ l)
  | [], m, _, _ => by simp [insertAll]
  | e :: rest, m, hnodup, hnew => by
    rw [List.map_cons, List.nodup_cons] at hnodup
    have hhead : (m.insert e.1 e.2).entries.Perm (e :: m.entries) :=
      insertEntry_perm (hnew e List.mem_cons_self)
    have hrest : ∀ x ∈ rest, x.1 ∉ (m.insert e.1 e.2).keys := by
      intro x hx
      rw [mem_keys_insert, not_or]
      exact ⟨fun heq => hnodup.1 (heq ▸ List.mem_map_of_mem hx), hnew x (List.mem_cons_of_mem _ hx)⟩
    calc (m.insertAll (e :: rest)).entries
      _ = ((m.insert e.1 e.2).insertAll rest).entries := rfl
      List.Perm _ ((m.insert e.1 e.2).entries ++ rest) := insertAll_perm hnodup.2 hrest
      List.Perm _ (e :: m.entries ++ rest) := hhead.append_right rest
      List.Perm _ (m.entries ++ e :: rest) := List.perm_middle.symm

/-- Entries with different keys are the entries of their map. -/
theorem ofList_perm [Std.TransOrd κ] [Std.LawfulEqOrd κ] {l : List (κ × ν)}
    (h : (l.map (·.1)).Nodup) : (ofList l : OrderedMap κ ν).entries.Perm l :=
  insertAll_perm h fun _ _ => List.not_mem_nil

end OrderedMap

/-! ### Entries in another order -/

/-- For each key, `l` and `l'` have the same entries in the same order; entries of different keys
may have come in any. -/
def Reordered {κ ν : Type} [DecidableEq κ] (l l' : List (κ × ν)) : Prop :=
  ∀ key, (l.filter fun e => e.1 = key) = l'.filter fun e => e.1 = key

namespace Reordered

variable {κ ν : Type} [DecidableEq κ]

/-- Entries of which no two have one key may come in any order. -/
theorem of_perm {l l' : List (κ × ν)} (h : l.Perm l') (hl : (l.map (·.1)).Nodup) :
    Reordered l l' := by
  intro key
  have hpairwise : l.Pairwise fun a b => a.1 ≠ b.1 := List.pairwise_map.mp hl
  have hpairwise' : l'.Pairwise fun a b => a.1 ≠ b.1 :=
    h.pairwise hpairwise fun hne => hne.symm
  refine (h.filter _).eq_of_pairwise (fun a b ha hb hne _ => ?_) (hpairwise.filter _)
    (hpairwise'.filter _)
  have hkeys : a.1 = key ∧ b.1 = key :=
    ⟨by simpa using (List.mem_filter.mp ha).2, by simpa using (List.mem_filter.mp hb).2⟩
  exact absurd (hkeys.1.trans hkeys.2.symm) hne

/-- The order in which entries of different keys were put in leaves no trace. -/
theorem ofList_eq [Ord κ] [Std.TransOrd κ] [Std.LawfulEqOrd κ] {l l' : List (κ × ν)}
    (h : Reordered l l') : OrderedMap.ofList l = OrderedMap.ofList l' :=
  OrderedMap.eq_of_get?_eq fun key => by
    unfold OrderedMap.ofList
    rw [OrderedMap.get?_insertAll, OrderedMap.get?_insertAll, h key]

end Reordered

/-! ### Maps value by value -/

namespace OrderedMap

variable {κ ν : Type} [Ord κ]

variable {ω : Type}

/-- The map with `f` applied to each value. -/
def mapValues (f : ν → ω) (m : OrderedMap κ ν) : OrderedMap κ ω :=
  ⟨m.entries.map fun e => (e.1, f e.2), List.pairwise_map.mpr m.increasing⟩

@[simp] theorem keys_mapValues (f : ν → ω) (m : OrderedMap κ ν) :
    (m.mapValues f).keys = m.keys := by
  simp [mapValues, keys]

theorem get?_mapValues (f : ν → ω) (m : OrderedMap κ ν) (key : κ) :
    (m.mapValues f).get? key = (m.get? key).map f := by
  simp only [mapValues, get?, List.find?_map, Option.map_map]
  rfl

end OrderedMap

/-! ### Maps with related values -/

theorem rel_cases {α : Type} {R : α → α → Prop} {x y : Option α} (h : Option.Rel R x y) :
    (x = none ∧ y = none) ∨ ∃ a b, x = some a ∧ y = some b ∧ R a b := by
  cases h with
  | none => exact .inl ⟨rfl, rfl⟩
  | some hab => exact .inr ⟨_, _, rfl, rfl, hab⟩

theorem rel_of_map_eq {α β : Type} {f : α → β} {x y : Option α} (h : x.map f = y.map f) :
    Option.Rel (fun a b => f a = f b) x y := by
  cases x <;> cases y <;> simp only [Option.map, reduceCtorEq, Option.some.injEq] at h
  · exact .none
  · exact .some h

/-- The first that satisfies `p` is at the same place in lists whose members satisfy it in pairs. -/
theorem rel_find? {α : Type} {R : α → α → Prop} {p : α → Bool} (hp : ∀ a b, R a b → p a = p b)
    {l l' : List α} (h : List.Forall₂ R l l') : Option.Rel R (l.find? p) (l'.find? p) := by
  induction h with
  | nil => exact .none
  | cons hab _ ih =>
    rw [List.find?_cons, List.find?_cons, ← hp _ _ hab]
    split
    · exact .some hab
    · exact ih

namespace OrderedMap

variable {κ ν ω : Type} [Ord κ] {R S : ν → ν → Prop} {m m' : OrderedMap κ ν}

/-- The same keys, with values related by `R`. -/
def Related (R : ν → ν → Prop) (m m' : OrderedMap κ ν) : Prop :=
  List.Forall₂ (fun e e' => e.1 = e'.1 ∧ R e.2 e'.2) m.entries m'.entries

theorem Related.refl (hR : ∀ v, R v v) (m : OrderedMap κ ν) : Related R m m :=
  List.forall₂_same.mpr fun e _ => ⟨rfl, hR e.2⟩

theorem Related.imp (h : Related R m m') (hRS : ∀ v v', R v v' → S v v') : Related S m m' :=
  List.Forall₂.imp (fun _ _ he => ⟨he.1, hRS _ _ he.2⟩) h

/-- The values of `m` may be replaced by `f`, if they stay related to those of `m'`. -/
theorem Related.mapValues_left (h : Related R m m') {f : ν → ν}
    (hf : ∀ v v', R v v' → R (f v) v') : Related R (m.mapValues f) m' :=
  List.forall₂_map_left_iff.mpr (List.Forall₂.imp (fun _ _ he => ⟨he.1, hf _ _ he.2⟩) h)

/-- A `key` has a value in both or in neither, and then related ones. -/
theorem Related.get? (h : Related R m m') (key : κ) : Option.Rel R (m.get? key) (m'.get? key) := by
  have hkey : ∀ e e' : κ × ν, e.1 = e'.1 ∧ R e.2 e'.2 →
      (compare key e.1).isEq = (compare key e'.1).isEq := fun _ _ he => by rw [he.1]
  unfold OrderedMap.get?
  rcases rel_cases (rel_find? hkey h) with ⟨hx, hx'⟩ | ⟨e, e', hx, hx', he⟩
  · rw [hx, hx']
    exact .none
  · rw [hx, hx']
    exact .some he.2

theorem related_insertEntry {key : κ} {v v' : ν} (hv : R v v') {l l' : List (κ × ν)}
    (h : List.Forall₂ (fun e e' => e.1 = e'.1 ∧ R e.2 e'.2) l l') :
    List.Forall₂ (fun e e' => e.1 = e'.1 ∧ R e.2 e'.2) (insertEntry key v l)
      (insertEntry key v' l') := by
  induction h with
  | nil => exact .cons ⟨rfl, hv⟩ .nil
  | @cons e e' l l' he hrest ih =>
    unfold insertEntry
    rw [← he.1]
    split
    · exact .cons ⟨rfl, hv⟩ (.cons he hrest)
    · exact .cons ⟨rfl, hv⟩ hrest
    · exact .cons he ih

/-- Related values may be put in. -/
theorem Related.insert [Std.TransOrd κ] (h : Related R m m') (key : κ) {v v' : ν} (hv : R v v') :
    Related R (m.insert key v) (m'.insert key v') :=
  related_insertEntry hv h

/-- Maps whose values `f` makes equal are those related in this sense. -/
theorem mapValues_eq_iff {f : ν → ω} :
    m.mapValues f = m'.mapValues f ↔ Related (fun v v' => f v = f v') m m' := by
  have hentries : m.mapValues f = m'.mapValues f ↔ List.Forall₂ Eq
      (m.entries.map fun e => (e.1, f e.2)) (m'.entries.map fun e => (e.1, f e.2)) := by
    rw [List.forall₂_eq_eq_eq]
    exact ⟨congrArg entries, fun h => ext h⟩
  rw [hentries, List.forall₂_map_left_iff, List.forall₂_map_right_iff]
  simp only [Prod.mk.injEq, Related]

end OrderedMap

end Covenant
