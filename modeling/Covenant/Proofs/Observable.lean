/-
# Dates of periods, and the order of keys

Binding to a period leaves no date of a period in a contract date, a guard or an
observable, and changes nothing in one that has none: `d.ofPeriod = false` makes
`d.bind start finish = d`. Without dates of periods an observable has a key, and
keys that are not told apart by their order are equal.

Key theorems: `ContractDate.bind_of_not_ofPeriod`, `Guard.bind_of_not_ofPeriod`,
`Observable.bind_of_not_ofPeriod`, `Observable.key_of_not_ofPeriod`.
-/
import Covenant.Guard
import Covenant.Observable
import Covenant.Proofs.Calendar.Order
import Covenant.Proofs.Currency

namespace Covenant

/-! ### Dates of periods -/

namespace ContractDate

theorem ofPeriod_bind (d : ContractDate) (start finish : Date) :
    (d.bind start finish).ofPeriod = false := by
  cases d <;> rfl

theorem bind_of_not_ofPeriod {d : ContractDate} (h : d.ofPeriod = false) (start finish : Date) :
    d.bind start finish = d := by
  cases d with
  | fixed date => rfl
  | periodStart => cases h
  | periodEnd => cases h

end ContractDate

namespace Guard

theorem ofPeriod_bind (g : Guard) (start finish : Date) :
    (g.bind start finish).ofPeriod = false := by
  cases g with
  | anytime => rfl
  | before date => exact date.ofPeriod_bind start finish
  | after date => exact date.ofPeriod_bind start finish

theorem bind_of_not_ofPeriod {g : Guard} (h : g.ofPeriod = false) (start finish : Date) :
    g.bind start finish = g := by
  cases g with
  | anytime => rfl
  | before date => rw [bind, ContractDate.bind_of_not_ofPeriod h]
  | after date => rw [bind, ContractDate.bind_of_not_ofPeriod h]

end Guard

namespace Observable

theorem ofPeriod_bind (o : Observable ContractDate) (start finish : Date) :
    (o.bind start finish).ofPeriod = false := by
  cases o <;> simp [Observable.bind, map, ofPeriod, dates, ContractDate.ofPeriod_bind]

theorem bind_of_not_ofPeriod {o : Observable ContractDate} (h : o.ofPeriod = false)
    (start finish : Date) : o.bind start finish = o := by
  cases o <;> simp [ofPeriod, dates] at h <;>
    simp [Observable.bind, map, ContractDate.bind_of_not_ofPeriod, h]

theorem key_of_not_ofPeriod {o : Observable ContractDate} (h : o.ofPeriod = false) :
    ∃ key, o.key = .ok key := by
  cases o with
  | fixing index start finish =>
    cases start <;> cases finish <;> first | exact ⟨_, rfl⟩ | cases h
  | spot base quoted on => cases on <;> first | exact ⟨_, rfl⟩ | cases h
  | quote name on => cases on <;> first | exact ⟨_, rfl⟩ | cases h

end Observable

/-! ### Keys -/

instance : Std.LawfulEqOrd ObservableKey where
  eq_of_compare {a b} h := by
    obtain ⟨hkind, h⟩ := compareLex_eq_eq.mp h
    obtain ⟨hlabel, h⟩ := compareLex_eq_eq.mp h
    obtain ⟨hbase, h⟩ := compareLex_eq_eq.mp h
    obtain ⟨hquoted, h⟩ := compareLex_eq_eq.mp h
    obtain ⟨hfirst, hlast⟩ := compareLex_eq_eq.mp h
    have hkind : a.kindRank = b.kindRank := Std.LawfulEqCmp.eq_of_compare hkind
    have hlabel : a.label = b.label := Std.LawfulEqCmp.eq_of_compare hlabel
    have hbase : a.baseRank = b.baseRank := Std.LawfulEqCmp.eq_of_compare hbase
    have hquoted : a.quoteRank = b.quoteRank := Std.LawfulEqCmp.eq_of_compare hquoted
    have hfirst : a.firstDay = b.firstDay := Std.LawfulEqCmp.eq_of_compare hfirst
    have hlast : a.lastDay = b.lastDay := Std.LawfulEqCmp.eq_of_compare hlast
    cases a <;> cases b <;> try cases hkind
    case fixing.fixing =>
      cases hlabel
      cases Date.eq_of_dayNumber_eq hfirst
      cases Date.eq_of_dayNumber_eq hlast
      rfl
    case spot.spot =>
      cases Currency.eq_of_rank_eq hbase
      cases Currency.eq_of_rank_eq hquoted
      cases Date.eq_of_dayNumber_eq hfirst
      rfl
    case quote.quote =>
      cases hlabel
      cases Date.eq_of_dayNumber_eq hfirst
      rfl

end Covenant
