/-
# A failed command leaves every file as it was

An election is made from what was read, `c.Loads`: a snapshot, market data, the
bindings of the snapshot overridden from left to right, and a date. Whatever is
missing or refused, the command fails before it writes. If the election is made,
`Snapshot.pretty` of what is left of the contract is written with the bindings
that it was made under, also over the snapshot itself. A replay writes its
outcome, if at all, when it is complete, `c.Replays`.

Key definitions: `ElectCommand.Binds`, `ElectCommand.Overrides`,
`ElectCommand.Loads`, `ReplayCommand.Replays`.
Key theorems: `ElectCommand.Overrides.get?_of_last`,
`ElectCommand.bindAll_eq_ok`, `ElectCommand.steps_eq_ok`,
`ReplayCommand.steps_eq_ok`, `failed_commands_keep_files`.
-/
import Covenant.Proofs.Command.Directory
import Covenant.Proofs.Replay.Extension
import Covenant.Proofs.Canonical.Snapshot
import Covenant.Proofs.Text.Blank

namespace Covenant

variable {d : Directory} {files : Files} {steps : List Step}

namespace ElectCommand

variable {c : ElectCommand}

/-! ### Bindings -/

/-- An entry `name=value` binds a name to a value: the name stands in front of the first `=` and the
value behind it, perhaps with white space around them. -/
def Binds (entry : String) (binding : String × Decimal) : Prop :=
  ∃ left right : String, entry.toList = left.toList ++ '=' :: right.toList ∧
    '=' ∉ left.toList ∧ Text.trim left = binding.1 ∧
    Decimal.read (Text.trim right) = .ok binding.2

/-- `bindings` are those of `base` overridden by entries from left to right. -/
def Overrides (entries : List String) (base bindings : Bindings) : Prop :=
  ∃ pairs, List.Forall₂ Binds entries pairs ∧ bindings = base.insertAll pairs

/-- An entry binds one name to one value. -/
theorem Binds.unique {entry : String} {b b' : String × Decimal} (h : Binds entry b)
    (h' : Binds entry b') : b = b' := by
  obtain ⟨left, right, hentry, hleft, hname, hvalue⟩ := h
  obtain ⟨left', right', hentry', hleft', hname', hvalue'⟩ := h'
  have hsplit := Text.splitAt?_eq_some.mpr ⟨hentry, hleft⟩
  rw [Text.splitAt?_eq_some.mpr ⟨hentry', hleft'⟩] at hsplit
  cases hsplit
  exact Prod.ext (hname.symm.trans hname') (Except.ok.inj (hvalue.symm.trans hvalue'))

theorem overrides_nil {base bindings : Bindings} :
    Overrides [] base bindings ↔ bindings = base := by
  constructor
  · rintro ⟨_, ⟨⟩, rfl⟩
    rfl
  · rintro rfl
    exact ⟨[], .nil, rfl⟩

/-- The first entry binds its name before the others are looked at. -/
theorem overrides_cons {entry : String} {rest : List String} {base bindings : Bindings} :
    Overrides (entry :: rest) base bindings ↔
      ∃ b, Binds entry b ∧ Overrides rest (base.insert b.1 b.2) bindings := by
  constructor
  · rintro ⟨_, _ | ⟨hfirst, hrest⟩, rfl⟩
    exact ⟨_, hfirst, _, hrest, rfl⟩
  · rintro ⟨b, hfirst, pairs, hrest, rfl⟩
    exact ⟨b :: pairs, .cons hfirst hrest, rfl⟩

/-- A name that no entry binds keeps its value. -/
theorem Overrides.get?_of_unbound {name : String} : ∀ {entries : List String}
    {base bindings : Bindings}, Overrides entries base bindings →
      (∀ entry ∈ entries, ∀ value, ¬Binds entry (name, value)) →
      bindings.get? name = base.get? name
  | [], _, _, h, _ => by rw [overrides_nil.mp h]
  | entry :: rest, base, bindings, h, hname => by
    obtain ⟨⟨other, value⟩, hbinds, hrest⟩ := overrides_cons.mp h
    obtain ⟨hfirst, hothers⟩ := List.forall_mem_cons.mp hname
    have hne : name ≠ other := by
      rintro rfl
      exact hfirst value hbinds
    rw [Overrides.get?_of_unbound hrest hothers, OrderedMap.get?_insert, if_neg hne]

/-- A name has the value to which it is bound last. -/
theorem Overrides.get?_of_last {entry name : String} {value : Decimal} {back : List String}
    (hentry : Binds entry (name, value))
    (hback : ∀ other ∈ back, ∀ value, ¬Binds other (name, value)) :
    ∀ {front : List String} {base bindings : Bindings},
      Overrides (front ++ entry :: back) base bindings → bindings.get? name = some value
  | [], base, bindings, h => by
    obtain ⟨b, hbinds, hrest⟩ := overrides_cons.mp h
    obtain rfl := hentry.unique hbinds
    rw [hrest.get?_of_unbound hback, OrderedMap.get?_insert, if_pos rfl]
  | _ :: front, _, _, h => by
    obtain ⟨_, -, hrest⟩ := overrides_cons.mp h
    exact Overrides.get?_of_last hentry hback hrest

/-- `bindAll` overrides by all entries, or not at all. -/
theorem bindAll_eq_ok : ∀ {entries : List String} {base bindings : Bindings},
    bindAll base entries = .ok bindings ↔ Overrides entries base bindings
  | [], base, bindings => by
    rw [overrides_nil]
    exact ⟨fun h => (Except.ok.inj h).symm, fun h => congrArg Except.ok h.symm⟩
  | entry :: rest, base, bindings => by
    rw [overrides_cons]
    constructor
    · intro h
      unfold bindAll at h
      split at h
      · cases h
      · rename_i left right hsplit
        split at h
        · cases h
        · rename_i value hvalue
          obtain ⟨hentry, hleft⟩ := Text.splitAt?_eq_some.mp hsplit
          exact ⟨(Text.trim left, value), ⟨left, right, hentry, hleft, rfl, hvalue⟩,
            bindAll_eq_ok.mp h⟩
    · rintro ⟨b, ⟨left, right, hentry, hleft, hname, hvalue⟩, hrest⟩
      unfold bindAll
      simp only [Text.splitAt?_eq_some.mpr ⟨hentry, hleft⟩, hvalue, hname]
      exact bindAll_eq_ok.mpr hrest

/-! ### What an election is made from -/

/-- What the command reads in `files`: the snapshot `s`, and the environment and the day of an
election. -/
structure Loads (c : ElectCommand) (files : Files) (s : Snapshot) (env : Environment)
    (day : Date) : Prop where
  snapshot : files.snapshot c.snapshot = .ok s
  market : files.market c.fixings = .ok env.market
  bindings : Overrides c.bindings s.bindings env.bindings
  day : Date.readSlash c.date = .ok day

/-- The command comes to steps exactly if it `Loads` all, and nothing is elected or the election is
made. -/
theorem steps_eq_ok : c.steps files = .ok steps ↔ ∃ s env day, c.Loads files s env day ∧
    ((c.action = none ∧ steps = listing ⟨c.actor⟩ c.date (s.arrangement.available day)) ∨
      ∃ label e, c.action = some label ∧
        s.arrangement.elect env ⟨c.actor⟩ label day = .ok e ∧ steps = c.report env.bindings e) := by
  unfold ElectCommand.steps
  constructor
  · intro h
    obtain ⟨s, hsnapshot, h⟩ := bind_eq_ok.mp h
    obtain ⟨market, hmarket, h⟩ := bind_eq_ok.mp h
    obtain ⟨bindings, hbindings, h⟩ := bind_eq_ok.mp h
    obtain ⟨day, hday, h⟩ := bind_eq_ok.mp h
    refine ⟨s, ⟨bindings, market⟩, day, ⟨hsnapshot, hmarket, bindAll_eq_ok.mp hbindings,
      mapError_eq_ok.mp hday⟩, ?_⟩
    cases haction : c.action with
    | none =>
      rw [haction] at h
      exact .inl ⟨rfl, (pure_eq_ok.mp h).symm⟩
    | some label =>
      rw [haction] at h
      obtain ⟨e, helect, h⟩ := bind_eq_ok.mp h
      exact .inr ⟨label, e, rfl, mapError_eq_ok.mp helect, (pure_eq_ok.mp h).symm⟩
  · rintro ⟨s, env, day, hloads, hdone⟩
    refine bind_eq_ok.mpr ⟨s, hloads.snapshot, bind_eq_ok.mpr ⟨_, hloads.market, bind_eq_ok.mpr
      ⟨_, bindAll_eq_ok.mpr hloads.bindings, bind_eq_ok.mpr
        ⟨day, mapError_eq_ok.mpr hloads.day, ?_⟩⟩⟩⟩
    obtain ⟨haction, rfl⟩ | ⟨label, e, haction, helect, rfl⟩ := hdone
    · rw [haction]
      rfl
    · rw [haction]
      exact bind_eq_ok.mpr ⟨e, mapError_eq_ok.mpr helect, rfl⟩

/-! ### What is written -/

theorem onlyPrints_listing (actor : Party) (date : String)
    (choices : List (Action Arrangement)) : OnlyPrints (listing actor date choices) :=
  .cons _ (.map _ choices)

theorem onlyPrints_paymentLines (indent : String) (payments : List Payment) :
    OnlyPrints (paymentLines indent payments) :=
  .map _ payments

/-- After an election, one step of its `report` writes, to `c.output`: what is left of the contract,
with the bindings. -/
theorem report_eq (c : ElectCommand) (bindings : Bindings) (e : Election) :
    ∃ lines text, OnlyPrints lines ∧ c.report bindings e = lines ++
      [.write c.output (Snapshot.pretty ⟨e.successor, bindings⟩), .print text] := by
  refine ⟨_ :: if e.payments.isEmpty then _ else _, _, .cons _ ?_, rfl⟩
  split
  · exact .cons _ .nil
  · exact onlyPrints_paymentLines _ _

/-- A run with no `action` exits with zero, and leaves the directory as it is. -/
theorem perform_listing {s : Snapshot} {env : Environment} {day : Date}
    (hloads : c.Loads d.read s env day) (haction : c.action = none) :
    (d.perform (c.steps d.read)).exit = 0 ∧ (d.perform (c.steps d.read)).directory = d := by
  rw [steps_eq_ok.mpr ⟨s, env, day, hloads, .inl ⟨haction, rfl⟩⟩]
  exact Directory.perform_prints (onlyPrints_listing _ _ _)

/-- A run that makes an election writes `c.output`, and nothing else. -/
theorem perform_election {s : Snapshot} {env : Environment} {day : Date} {label : String}
    {e : Election} (hloads : c.Loads d.read s env day) (haction : c.action = some label)
    (helect : s.arrangement.elect env ⟨c.actor⟩ label day = .ok e) :
    (d.perform (c.steps d.read)).WritesOnly d c.output
      (Snapshot.pretty ⟨e.successor, env.bindings⟩) := by
  obtain ⟨lines, text, hlines, hreport⟩ := c.report_eq env.bindings e
  rw [steps_eq_ok.mpr ⟨s, env, day, hloads, .inr ⟨label, e, haction, helect, hreport.symm⟩⟩]
  exact Directory.perform_writesOnly hlines (.cons text .nil)

/-- A run either comes to no steps, or lists what is open, or makes an election. -/
theorem perform_cases (c : ElectCommand) (d : Directory) :
    ((d.perform (c.steps d.read)).exit = 1 ∧ (d.perform (c.steps d.read)).directory = d) ∨
    (c.action = none ∧ ∃ s env day, c.Loads d.read s env day) ∨
    ∃ s env day label e, c.Loads d.read s env day ∧ c.action = some label ∧
      s.arrangement.elect env ⟨c.actor⟩ label day = .ok e := by
  cases hsteps : c.steps d.read with
  | error cause => exact .inl (Directory.perform_error cause)
  | ok steps =>
    obtain ⟨s, env, day, hloads, ⟨haction, -⟩ | ⟨label, e, haction, helect, -⟩⟩ :=
      steps_eq_ok.mp hsteps
    · exact .inr (.inl ⟨haction, s, env, day, hloads⟩)
    · exact .inr (.inr ⟨s, env, day, label, e, hloads, haction, helect⟩)

/-- A run whose `exit` is not zero, or that only lists, leaves the directory as it is. -/
theorem perform_keeps (h : (d.perform (c.steps d.read)).exit ≠ 0 ∨ c.action = none) :
    (d.perform (c.steps d.read)).directory = d := by
  obtain ⟨-, hkept⟩ | ⟨haction, s, env, day, hloads⟩ |
    ⟨s, env, day, label, e, hloads, haction, helect⟩ := c.perform_cases d
  · exact hkept
  · exact (perform_listing hloads haction).2
  · have hexit := h.resolve_right (by rw [haction]; exact Option.some_ne_none label)
    exact (perform_election hloads haction helect).kept hexit

/-- A run succeeds exactly if all is read and an election, if one is asked for, is made and its
output can be written. -/
theorem perform_exit_eq_zero : (d.perform (c.steps d.read)).exit = 0 ↔
    ∃ s env day, c.Loads d.read s env day ∧ ∀ label, c.action = some label →
      d.Accepts c.output ∧ ∃ e, s.arrangement.elect env ⟨c.actor⟩ label day = .ok e := by
  constructor
  · intro hexit
    obtain ⟨hfailed, -⟩ | ⟨haction, s, env, day, hloads⟩ |
      ⟨s, env, day, label, e, hloads, haction, helect⟩ := c.perform_cases d
    · rw [hfailed] at hexit
      cases hexit
    · exact ⟨s, env, day, hloads, fun label h => by rw [haction] at h; cases h⟩
    · refine ⟨s, env, day, hloads, fun other h => ?_⟩
      obtain rfl : label = other := Option.some.inj (haction.symm.trans h)
      exact ⟨(perform_election hloads haction helect).exit_eq_zero.mp hexit, e, helect⟩
  · rintro ⟨s, env, day, hloads, helected⟩
    cases haction : c.action with
    | none => exact (perform_listing hloads haction).1
    | some label =>
      obtain ⟨haccepts, e, helect⟩ := helected label haction
      exact (perform_election hloads haction helect).exit_eq_zero.mpr haccepts

end ElectCommand

namespace ReplayCommand

variable {c : ReplayCommand}

/-- What the command reads is replayed to an outcome. -/
def Replays (c : ReplayCommand) (files : Files) (o : Replay.Outcome) : Prop :=
  ∃ s log market, files.snapshot c.snapshot = .ok s ∧ files.log c.log = .ok log ∧
    files.market c.fixings = .ok market ∧ Replay.runHolders c.options market s log = .ok o

/-- The command does something exactly if the whole replay succeeds. -/
theorem steps_eq_ok : c.steps files = .ok steps ↔
    ∃ o, c.Replays files o ∧ steps = c.report o := by
  unfold ReplayCommand.steps
  constructor
  · intro h
    obtain ⟨s, hsnapshot, h⟩ := bind_eq_ok.mp h
    obtain ⟨log, hlog, h⟩ := bind_eq_ok.mp h
    obtain ⟨market, hmarket, h⟩ := bind_eq_ok.mp h
    obtain ⟨o, hrun, h⟩ := bind_eq_ok.mp h
    exact ⟨o, ⟨s, log, market, hsnapshot, hlog, hmarket, mapError_eq_ok.mp hrun⟩,
      (pure_eq_ok.mp h).symm⟩
  · rintro ⟨o, ⟨s, log, market, hsnapshot, hlog, hmarket, hrun⟩, rfl⟩
    exact bind_eq_ok.mpr ⟨s, hsnapshot, bind_eq_ok.mpr ⟨log, hlog, bind_eq_ok.mpr
      ⟨market, hmarket, bind_eq_ok.mpr ⟨o, mapError_eq_ok.mpr hrun, rfl⟩⟩⟩⟩

theorem onlyPrints_electionLines : ∀ (elections : List Election) (index : Nat),
    OnlyPrints (electionLines index elections)
  | [], _ => .nil
  | _ :: rest, index =>
    (OnlyPrints.cons _ (ElectCommand.onlyPrints_paymentLines _ _)).append
      (onlyPrints_electionLines rest (index + 1))

theorem onlyPrints_table (positions : Ledger) : OnlyPrints (table positions) :=
  OnlyPrints.append (.cons _ (.cons _ (.cons _ .nil))) (.map _ positions.entries)

/-- The lines that show an outcome, the last of them about its final state. -/
theorem onlyPrints_lines (first last : String) (o : Replay.Outcome) :
    OnlyPrints (.print first :: electionLines 0 o.elections ++ table o.positions ++
      [.print last]) :=
  ((OnlyPrints.cons first (onlyPrints_electionLines _ 0)).append (onlyPrints_table _)).append
    (.cons last .nil)

/-- A replay with no `output` only prints. -/
theorem onlyPrints_report (h : c.output = none) (o : Replay.Outcome) :
    OnlyPrints (c.report o) := by
  unfold report
  rw [h]
  exact onlyPrints_lines _ _ o

/-- After a replay, one step of its `report` writes, if there is an `output`: the outcome. -/
theorem report_eq {path : String} (h : c.output = some path) (o : Replay.Outcome) :
    ∃ lines text, OnlyPrints lines ∧
      c.report o = lines ++ [.write path o.toJson.pretty, .print text] := by
  unfold report
  rw [h]
  exact ⟨_, _, onlyPrints_lines _ _ o, List.append_cons _ _ _⟩

/-- A run with no `output` leaves the directory as it is, and succeeds if the replay does. -/
theorem perform_report (h : c.output = none) {o : Replay.Outcome} (ho : c.Replays d.read o) :
    (d.perform (c.steps d.read)).exit = 0 ∧ (d.perform (c.steps d.read)).directory = d := by
  rw [steps_eq_ok.mpr ⟨o, ho, rfl⟩]
  exact Directory.perform_prints (onlyPrints_report h o)

/-- A run with an `output` writes the outcome there, and nothing else. -/
theorem perform_outcome {path : String} (h : c.output = some path) {o : Replay.Outcome}
    (ho : c.Replays d.read o) :
    (d.perform (c.steps d.read)).WritesOnly d path o.toJson.pretty := by
  obtain ⟨lines, text, hlines, hreport⟩ := report_eq h o
  rw [steps_eq_ok.mpr ⟨o, ho, hreport.symm⟩]
  exact Directory.perform_writesOnly hlines (.cons text .nil)

/-- A run either comes to no steps, or the whole replay succeeds. -/
theorem perform_cases (c : ReplayCommand) (d : Directory) :
    ((d.perform (c.steps d.read)).exit = 1 ∧ (d.perform (c.steps d.read)).directory = d) ∨
    ∃ o, c.Replays d.read o := by
  cases hsteps : c.steps d.read with
  | error cause => exact .inl (Directory.perform_error cause)
  | ok steps =>
    obtain ⟨o, ho, -⟩ := steps_eq_ok.mp hsteps
    exact .inr ⟨o, ho⟩

/-- A run whose `exit` is not zero, or with no `output`, leaves the directory as it is. -/
theorem perform_keeps (h : (d.perform (c.steps d.read)).exit ≠ 0 ∨ c.output = none) :
    (d.perform (c.steps d.read)).directory = d := by
  obtain ⟨-, hkept⟩ | ⟨o, ho⟩ := c.perform_cases d
  · exact hkept
  · cases houtput : c.output with
    | none => exact (perform_report houtput ho).2
    | some path =>
      have hexit := h.resolve_right (by rw [houtput]; exact Option.some_ne_none path)
      exact (perform_outcome houtput ho).kept hexit

/-- A run succeeds exactly if it `Replays` the whole log and its `output` can be written. -/
theorem perform_exit_eq_zero : (d.perform (c.steps d.read)).exit = 0 ↔
    (∃ o, c.Replays d.read o) ∧ ∀ path, c.output = some path → d.Accepts path := by
  constructor
  · intro hexit
    obtain ⟨hfailed, -⟩ | ⟨o, ho⟩ := c.perform_cases d
    · rw [hfailed] at hexit
      cases hexit
    · exact ⟨⟨o, ho⟩, fun path h => (perform_outcome h ho).exit_eq_zero.mp hexit⟩
  · rintro ⟨⟨o, ho⟩, haccepts⟩
    cases houtput : c.output with
    | none => exact (perform_report houtput ho).1
    | some path => exact (perform_outcome houtput ho).exit_eq_zero.mpr (haccepts path houtput)

end ReplayCommand

/-! ### Both commands -/

namespace Directory

variable {words : List String}

theorem run_elect {c : ElectCommand} (h : ElectCommand.read words = .ok c) :
    d.run .elect words = d.perform (c.steps d.read) := by
  have hread : Program.read .elect words = .ok (.elect c) := congrArg (Except.map Request.elect) h
  exact run_of_read hread

theorem run_replayLog {c : ReplayCommand} (h : ReplayCommand.read words = .ok c) :
    d.run .replayLog words = d.perform (c.steps d.read) := by
  have hread : Program.read .replayLog words = .ok (.replayLog c) :=
    congrArg (Except.map Request.replayLog) h
  exact run_of_read hread

end Directory

/-- **A failed command leaves every file as it was.** If the `exit` of `d.run` is not zero, or
`program.read` refuses the command line, nothing changes in the directory `d`; nor does a run
without an `action`, or without an `output`, change anything. An election succeeds exactly if it
`Loads` all that it is made from, it is made, and the directory `Accepts` its output. Then all that
has changed is `c.output`, as `Stores` says, also if that is the snapshot itself, and it holds
`Snapshot.pretty` of the successor with the bindings that the election was made under. A replay
writes its outcome `o` when it `Replays` the whole log, and nothing else. -/
theorem failed_commands_keep_files (d : Directory) (words : List String) :
    (∀ program, program = .elect ∨ program = .replayLog →
      ((d.run program words).exit ≠ 0 ∨ ∃ refusal, program.read words = .error refusal) →
        (d.run program words).directory = d) ∧
    (∀ c, ElectCommand.read words = .ok c →
      ((d.run .elect words).exit = 0 ↔
        ∃ s env day, c.Loads d.read s env day ∧ ∀ label, c.action = some label →
          d.Accepts c.output ∧ ∃ e, s.arrangement.elect env ⟨c.actor⟩ label day = .ok e) ∧
      (c.action = none → (d.run .elect words).directory = d) ∧
      ∀ s env day label e, c.Loads d.read s env day → c.action = some label →
        s.arrangement.elect env ⟨c.actor⟩ label day = .ok e → d.Accepts c.output →
          d.Stores c.output (Snapshot.pretty ⟨e.successor, env.bindings⟩)
            (d.run .elect words).directory) ∧
    ∀ c, ReplayCommand.read words = .ok c →
      ((d.run .replayLog words).exit = 0 ↔
        (∃ o, c.Replays d.read o) ∧ ∀ path, c.output = some path → d.Accepts path) ∧
      (c.output = none → (d.run .replayLog words).directory = d) ∧
      ∀ o path, c.Replays d.read o → c.output = some path → d.Accepts path →
        d.Stores path o.toJson.pretty (d.run .replayLog words).directory := by
  refine ⟨?_, fun c hc => ?_, fun c hc => ?_⟩
  · rintro program (rfl | rfl) h
    · cases hread : ElectCommand.read words with
      | error refusal =>
        exact Directory.directory_run_of_refused (congrArg (Except.map Request.elect) hread)
      | ok c =>
        have hexit := h.resolve_right (by simp [Program.read, hread, Except.map])
        rw [Directory.run_elect hread] at hexit ⊢
        exact ElectCommand.perform_keeps (.inl hexit)
    · cases hread : ReplayCommand.read words with
      | error refusal =>
        exact Directory.directory_run_of_refused (congrArg (Except.map Request.replayLog) hread)
      | ok c =>
        have hexit := h.resolve_right (by simp [Program.read, hread, Except.map])
        rw [Directory.run_replayLog hread] at hexit ⊢
        exact ReplayCommand.perform_keeps (.inl hexit)
  · rw [Directory.run_elect hc]
    exact ⟨ElectCommand.perform_exit_eq_zero, fun h => ElectCommand.perform_keeps (.inr h),
      fun _ _ _ _ _ hloads haction helect =>
        (ElectCommand.perform_election hloads haction helect).stores⟩
  · rw [Directory.run_replayLog hc]
    exact ⟨ReplayCommand.perform_exit_eq_zero, fun h => ReplayCommand.perform_keeps (.inr h),
      fun _ _ ho houtput => (ReplayCommand.perform_outcome houtput ho).stores⟩

/-- The contract `payNotional`, kept in `contract.json` without any bindings. -/
def notionalKept : Directory :=
  ⟨.ofList [("contract.json", Text.bytes (Snapshot.canonical ⟨payNotional, .empty⟩))], .empty⟩

/-- `notional` is bound and paid, and what is left is to be written over the contract. -/
def payBound : List String :=
  ["--snapshot", "contract.json", "--actor", "acmeCorp", "--action", "pay", "--date", "01/05/2015",
    "--bind", "notional=100", "--output=./contract.json"]

/-- What the command line `payBound` asks for. -/
def payBoundCommand : ElectCommand :=
  ⟨"contract.json", "acmeCorp", some "pay", "01/05/2015", none, ["notional=100"], "./contract.json"⟩

/-- The contract is read, and `notional` is what it is bound to. -/
theorem payBound_loads : payBoundCommand.Loads notionalKept.read ⟨payNotional, .empty⟩
    notionalKnown (.literal 2015 5 1) where
  snapshot := by
    have hvalid : payNotional.validate = .ok () := by decide
    have hread : Snapshot.read (Text.bytes (Snapshot.canonical ⟨payNotional, .empty⟩)) =
        .ok ⟨payNotional, .empty⟩ :=
      (@Snapshot.read_text .compact ⟨payNotional, .empty⟩ hvalid).trans (if_pos (by decide))
    have hresolve : notionalKept.resolve "contract.json" = .ok (.name "contract.json") := by
      decide +kernel
    have hbytes : notionalKept.read "contract.json" =
        .ok (Text.bytes (Snapshot.canonical ⟨payNotional, .empty⟩)) :=
      bind_eq_ok.mpr ⟨_, hresolve, rfl⟩
    show Files.snapshot notionalKept.read "contract.json" = _
    simp only [Files.snapshot, hbytes, hread]
    rfl
  market := rfl
  bindings := ElectCommand.bindAll_eq_ok.mp (by decide +kernel)
  day := by decide +kernel

/-- The contract is replaced by what is left of it, which is `zero`, with the binding. -/
theorem payBound_kept : ElectCommand.read payBound = .ok payBoundCommand ∧
    notionalKept.resolve "./contract.json" = notionalKept.resolve "contract.json" ∧
    (notionalKept.run .elect payBound).exit = 0 ∧
    notionalKept.Stores "./contract.json" (Snapshot.pretty ⟨.zero, notionalKnown.bindings⟩)
      (notionalKept.run .elect payBound).directory := by
  have hcommand : ElectCommand.read payBound = .ok payBoundCommand := by decide +kernel
  have haccepts : notionalKept.Accepts "./contract.json" :=
    ⟨.name "contract.json", by decide +kernel, nofun⟩
  obtain ⟨hexit, -, hstores⟩ :=
    (failed_commands_keep_files notionalKept payBound).2.1 _ hcommand
  have hstored := hstores _ _ _ _ _ payBound_loads rfl payNotional_elect haccepts
  refine ⟨hcommand, by decide +kernel, hexit.mpr ⟨_, _, _, payBound_loads, ?_⟩, hstored⟩
  rintro label ⟨⟩
  exact ⟨haccepts, _, payNotional_elect⟩

end Covenant
