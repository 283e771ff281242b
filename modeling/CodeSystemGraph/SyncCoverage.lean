import CodeSystemGraph.SyncWatch

/-!
No recorded event is lost between the callbacks and the passes. An event is
accounted for by a pass that was taken after it, or by the one place that holds
it together with what will make the next party take it from there.
-/

namespace CodeSystemGraph.SyncWatch

open Ordered

/-- A touched list, in a message or in the overrides of a pass, reaches a scope: the empty list is
the whole workspace. -/
def Names (repositories : List String) (scope : EventScope) : Prop :=
  repositories = [] ∨ ∃ aliases, scope = .repositories aliases ∧ aliases ⊆ repositories

def TouchedRepositories.Holds (touched : TouchedRepositories) (scope : EventScope) : Prop :=
  touched.workspace = true ∨
    ∃ aliases, scope = .repositories aliases ∧ aliases ⊆ touched.aliases

namespace TouchedRepositories

variable {touched : TouchedRepositories} {scope : EventScope}

theorem subset_record_aliases (touched : TouchedRepositories) (scope : EventScope) :
    touched.aliases ⊆ (touched.record scope).aliases := by
  cases scope with
  | irrelevant => exact List.Subset.refl _
  | workspace => exact List.Subset.refl _
  | repositories aliases =>
    intro name mem
    exact mem_sortedUnique.2 (List.mem_append_left _ mem)

theorem Holds.record (held : touched.Holds scope) (other : EventScope) :
    (touched.record other).Holds scope := by
  cases held with
  | inl whole =>
    left
    cases other <;> simp [TouchedRepositories.record, whole]
  | inr named =>
    obtain ⟨aliases, same, subset⟩ := named
    exact .inr ⟨aliases, same, fun _ mem => subset_record_aliases touched other (subset mem)⟩

theorem holds_record_self (touched : TouchedRepositories) (relevant : scope ≠ .irrelevant) :
    (touched.record scope).Holds scope := by
  cases scope with
  | irrelevant => exact absurd rfl relevant
  | workspace => exact .inl rfl
  | repositories aliases =>
    exact .inr ⟨aliases, rfl, fun name mem => mem_sortedUnique.2 (List.mem_append_right _ mem)⟩

theorem Holds.names_take (held : touched.Holds scope) : Names (touched.take.getD []) scope := by
  rw [take]
  split
  · next narrowed =>
    cases held with
    | inl whole => simp [whole] at narrowed
    | inr named => exact .inr named
  · exact .inl rfl

theorem holds_record_message {repositories : List String} (named : Names repositories scope) :
    (touched.record (if repositories.isEmpty then .workspace
      else .repositories (sortedUnique repositories))).Holds scope := by
  cases empty : repositories.isEmpty with
  | true => exact .inl rfl
  | false =>
    cases named with
    | inl nil => simp [nil] at empty
    | inr named =>
      obtain ⟨aliases, same, subset⟩ := named
      refine .inr ⟨aliases, same, fun name mem => ?_⟩
      exact mem_sortedUnique.2 (List.mem_append_right _ (mem_sortedUnique.2 (subset mem)))

end TouchedRepositories

theorem names_targeted {touched : TouchedRepositories} {scope : EventScope}
    (held : touched.Holds scope) (repository : Option String) (refreshScope : Bool) :
    Names (targetedPassOverrides (watchOverrides repository) refreshScope
      touched.take).touchedRepositories scope := by
  rw [targetedPassOverrides]
  split
  · exact held.names_take
  · exact .inl rfl

theorem emitDirty_eq_some {encodedLength : WatchEventMessage → Nat} {refreshScope : Bool}
    {repositories : List String} {message : WatchEventMessage}
    (emitted : emitDirty encodedLength refreshScope repositories = some message) :
    ∃ written, message = .dirty 2 refreshScope written ∧
      ∀ scope, Names repositories scope → Names written scope := by
  simp only [emitDirty] at emitted
  split at emitted
  · exact ⟨repositories, (Option.some.inj emitted).symm, fun _ named => named⟩
  · split at emitted
    · exact ⟨[], (Option.some.inj emitted).symm, fun _ _ => .inl rfl⟩
    · cases emitted

theorem merge_eq_some {current shared : WatchEventState} {message : WatchEventMessage}
    (merged : current.merge message = some shared) :
    (message = .ready 2 ∧ shared.touched = current.touched) ∨
      ∃ refreshScope repositories, message = .dirty 2 refreshScope repositories ∧
        shared.touched = current.touched.record
          (if repositories.isEmpty then .workspace else .repositories (sortedUnique repositories)) := by
  rw [WatchEventState.merge.eq_def] at merged
  split at merged
  · cases merged
    exact .inl ⟨rfl, rfl⟩
  · next refreshScope repositories =>
    cases merged
    exact .inr ⟨refreshScope, repositories, rfl, rfl⟩
  · cases merged

theorem forwardEvent_relevant {Path : Type} {databaseArtifact : Path → Bool}
    {notification : Notification Path} {scope : EventScope} {callback : Callback}
    (forwarded : forwardEvent databaseArtifact notification = some (scope, callback)) :
    scope ≠ .irrelevant := by
  intro irrelevant
  subst irrelevant
  cases notification with
  | event eventScope gitignore created =>
    cases eventScope with
    | error detail => simp [forwardEvent] at forwarded
    | ok touched => cases touched <;> simp [forwardEvent] at forwarded
  | error paths =>
    rw [forwardEvent] at forwarded
    split at forwarded <;> simp at forwarded

namespace State

/-- The worker has received a signal and has not yet taken the pending set. -/
def WillTakePending (s : State) : Prop :=
  s.signals.isSome = true ∨ s.callbacks ≠ [] ∨ (∃ signal, s.worker = .received signal) ∨
    ∃ signal refreshScope, s.worker = .scoped signal refreshScope

/-- The supervisor has a token, or is past its token and has not yet taken the shared set. -/
def WillTakeShared (s : State) : Prop :=
  s.token = true ∨ s.reader = .signalling ∨ s.supervisor = .debouncing ∨ s.supervisor = .changed ∨
    ∃ refreshScope, s.supervisor = .scoped refreshScope

/-- Passes whose touched set was taken: the completed ones and the one under way. -/
def taken (s : State) : List Pass :=
  match s.supervisor with
  | .passing pass => s.passes ++ [pass]
  | _ => s.passes

inductive Accounted (s : State) (index : Nat) (scope : EventScope) : Prop
  | covered (pass : Pass) (mem : pass ∈ s.taken) (after : index < pass.recordedBefore)
      (named : Names pass.overrides.touchedRepositories scope)
  | pending (held : s.pending.touched.Holds scope) (next : s.WillTakePending)
  | carried (signal : WatchSignal) (refreshScope : Bool) (repositories : List String)
      (worker : s.worker = .taken signal refreshScope repositories)
      (named : Names repositories scope)
  | piped (refreshScope : Bool) (repositories : List String)
      (mem : .dirty 2 refreshScope repositories ∈ s.pipe) (named : Names repositories scope)
  | shared (held : s.shared.touched.Holds scope) (next : s.WillTakeShared)

namespace Accounted

variable {Path : Type} {s t : State} {index : Nat} {scope : EventScope}

theorem upstream (accounted : s.Accounted index scope) (supervisor : t.supervisor = s.supervisor)
    (passes : t.passes = s.passes) (reader : t.reader = s.reader) (shared : t.shared = s.shared)
    (token : t.token = s.token) (pipe : s.pipe ⊆ t.pipe)
    (pending : s.pending.touched.Holds scope → s.WillTakePending → t.Accounted index scope)
    (carried : ∀ signal refreshScope repositories,
      s.worker = .taken signal refreshScope repositories → Names repositories scope →
        t.Accounted index scope) :
    t.Accounted index scope := by
  cases accounted with
  | covered pass mem after named =>
    refine .covered pass ?_ after named
    rwa [taken, supervisor, passes]
  | pending held next => exact pending held next
  | carried signal refreshScope repositories worker named =>
    exact carried signal refreshScope repositories worker named
  | piped refreshScope repositories mem named =>
    exact .piped refreshScope repositories (pipe mem) named
  | shared held next =>
    refine .shared ?_ ?_
    · rwa [shared]
    · rwa [WillTakeShared, token, reader, supervisor]

theorem downstream (accounted : s.Accounted index scope) (pending : t.pending = s.pending)
    (signals : t.signals = s.signals) (callbacks : t.callbacks = s.callbacks)
    (worker : t.worker = s.worker) (taken : s.taken ⊆ t.taken)
    (piped : ∀ refreshScope repositories, .dirty 2 refreshScope repositories ∈ s.pipe →
      Names repositories scope → t.Accounted index scope)
    (shared : s.shared.touched.Holds scope → s.WillTakeShared → t.Accounted index scope) :
    t.Accounted index scope := by
  cases accounted with
  | covered pass mem after named => exact .covered pass (taken mem) after named
  | pending held next =>
    refine .pending ?_ ?_
    · rwa [pending]
    · rwa [WillTakePending, signals, callbacks, worker]
  | carried signal refreshScope repositories carrying named =>
    exact .carried signal refreshScope repositories (worker.trans carrying) named
  | piped refreshScope repositories mem named => exact piped refreshScope repositories mem named
  | shared held next => exact shared held next

theorem notify (accounted : s.Accounted index scope) (databaseArtifact : Path → Bool)
    (notification : Notification Path) :
    (s.notify databaseArtifact notification).Accounted index scope := by
  rw [State.notify]
  split
  · exact accounted
  · refine accounted.upstream rfl rfl rfl rfl rfl (List.Subset.refl _) ?_ ?_
    · intro held _
      exact .pending (held.record _) (.inr (.inl (by simp)))
    · intro signal refreshScope repositories worker named
      exact .carried signal refreshScope repositories worker named

theorem advance (accounted : s.Accounted index scope) {position : Nat}
    (stepped : s.advance position = some t) : t.Accounted index scope := by
  rw [State.advance] at stepped
  split at stepped
  · cases stepped
  · next flag stores signal found =>
    cases stepped
    refine accounted.upstream rfl rfl rfl rfl rfl (List.Subset.refl _) ?_ ?_
    · intro held _
      refine .pending ?_ (.inr (.inl ?_))
      · cases flag <;> exact held
      · intro empty
        rw [List.set_eq_nil_iff] at empty
        simp [empty] at found
    · intro signal refreshScope repositories worker named
      exact .carried signal refreshScope repositories worker named
  · next signal found =>
    cases stepped
    refine accounted.upstream rfl rfl rfl rfl rfl (List.Subset.refl _) ?_ ?_
    · intro held _
      exact .pending held (.inl (by simp))
    · intro signal refreshScope repositories worker named
      exact .carried signal refreshScope repositories worker named

theorem work (accounted : s.Accounted index scope) {encodedLength : WatchEventMessage → Nat}
    (stepped : s.work encodedLength = some t) : t.Accounted index scope := by
  rw [State.work] at stepped
  split at stepped
  · next waiting =>
    obtain ⟨signal, found, rfl⟩ := Option.map_eq_some_iff.1 stepped
    refine accounted.upstream rfl rfl rfl rfl rfl (List.Subset.refl _) ?_ ?_
    · intro held _
      exact .pending held (.inr (.inr (.inl ⟨signal, rfl⟩)))
    · intro signal refreshScope repositories worker
      simp [waiting] at worker
  · next signal received =>
    cases stepped
    refine accounted.upstream rfl rfl rfl rfl rfl (List.Subset.refl _) ?_ ?_
    · intro held _
      exact .pending held (.inr (.inr (.inr ⟨signal, _, rfl⟩)))
    · intro signal refreshScope repositories worker
      simp [received] at worker
  · next signal refreshScope flagged =>
    -- The pending set passes into the worker's hand.
    cases stepped
    refine accounted.upstream rfl rfl rfl rfl rfl (List.Subset.refl _) ?_ ?_
    · intro held _
      exact .carried signal refreshScope _ rfl held.names_take
    · intro signal refreshScope repositories worker
      simp [flagged] at worker
  · next signal refreshScope repositories taken =>
    -- And from there into the pipe.
    obtain ⟨message, emitted, rfl⟩ := Option.map_eq_some_iff.1 stepped
    obtain ⟨written, rfl, names⟩ := emitDirty_eq_some emitted
    refine accounted.upstream rfl rfl rfl rfl rfl (List.subset_append_left _ _) ?_ ?_
    · intro held next
      refine .pending held ?_
      simpa [WillTakePending, taken] using next
    · intro signal' refreshScope' repositories' worker named
      rw [taken, Worker.taken.injEq] at worker
      refine .piped refreshScope written (by simp) (names scope ?_)
      rwa [worker.2.2]
  · next signal dirtied =>
    cases stepped
    refine accounted.upstream rfl rfl rfl rfl rfl (List.Subset.refl _) ?_ ?_
    · intro held next
      refine .pending held ?_
      simpa [WillTakePending, dirtied] using next
    · intro signal refreshScope repositories worker
      simp [dirtied] at worker
  · next refresh refreshing =>
    cases stepped
    refine accounted.upstream rfl rfl rfl rfl rfl (List.subset_append_left _ _) ?_ ?_
    · intro held next
      refine .pending held ?_
      simpa [WillTakePending, refreshing] using next
    · intro signal refreshScope repositories worker
      simp [refreshing] at worker

theorem receive (accounted : s.Accounted index scope) (stepped : s.receive = some t) :
    t.Accounted index scope := by
  have from_token : ∀ {t}, some { s with supervisor := .debouncing, token := false } = some t →
      s.taken ⊆ s.passes → t.Accounted index scope := by
    intro t stepped subset
    cases stepped
    refine accounted.downstream rfl rfl rfl rfl subset ?_ ?_
    · intro refreshScope repositories mem named
      exact .piped refreshScope repositories mem named
    · intro held _
      exact .shared held (.inr (.inr (.inl rfl)))
  rw [State.receive] at stepped
  split at stepped
  · next waiting _ => exact from_token stepped (by simp [taken, waiting])
  · next debouncing _ => exact from_token stepped (by simp [taken, debouncing])
  · cases stepped

theorem supervise (accounted : s.Accounted index scope) (recorded : index < s.recorded.length)
    {repository : Option String} (stepped : s.supervise (watchOverrides repository) = some t) :
    t.Accounted index scope := by
  rw [State.supervise] at stepped
  split at stepped
  · cases stepped
  · next debouncing =>
    cases stepped
    refine accounted.downstream rfl rfl rfl rfl (by simp [taken, debouncing])
      (fun _ _ mem named => .piped _ _ mem named) ?_
    intro held _
    exact .shared held (.inr (.inr (.inr (.inl rfl))))
  · next changed =>
    cases stepped
    refine accounted.downstream rfl rfl rfl rfl (by simp [taken, changed])
      (fun _ _ mem named => .piped _ _ mem named) ?_
    intro held _
    exact .shared held (.inr (.inr (.inr (.inr ⟨_, rfl⟩))))
  · next refreshScope flagged =>
    -- The take: whatever the shared set holds, the pass names.
    cases stepped
    refine accounted.downstream rfl rfl rfl rfl (by simp [taken, flagged])
      (fun _ _ mem named => .piped _ _ mem named) ?_
    intro held _
    exact .covered _ (List.mem_append_right _ (List.mem_singleton_self _)) recorded
      (names_targeted held repository refreshScope)
  · next pass passing =>
    cases stepped
    refine accounted.downstream rfl rfl rfl rfl (by simp [taken, passing])
      (fun _ _ mem named => .piped _ _ mem named) ?_
    intro held next
    refine .shared held ?_
    simpa [WillTakeShared, passing] using next

theorem read (accounted : s.Accounted index scope) (stepped : s.read = some t) :
    t.Accounted index scope := by
  rw [State.read] at stepped
  split at stepped
  · next message pipe reading rest =>
    cases merged : s.shared.merge message with
    | none =>
      simp only [merged, Option.some.injEq] at stepped
      subst stepped
      refine accounted.downstream rfl rfl rfl rfl (List.Subset.refl _) ?_ ?_
      · intro refreshScope repositories mem named
        rw [rest, List.mem_cons] at mem
        cases mem with
        | inl head => simp [← head, WatchEventState.merge] at merged
        | inr mem => exact .piped refreshScope repositories mem named
      · intro held next
        refine .shared held ?_
        simpa [WillTakeShared, reading] using next
    | some shared =>
      simp only [merged, Option.some.injEq] at stepped
      subst stepped
      obtain ⟨rfl, same⟩ | ⟨refreshScope, repositories, rfl, same⟩ := merge_eq_some merged
      · refine accounted.downstream rfl rfl rfl rfl (List.Subset.refl _) ?_ ?_
        · intro refreshScope repositories mem named
          rw [rest, List.mem_cons] at mem
          exact .piped refreshScope repositories (mem.resolve_left (by simp)) named
        · intro held next
          refine .shared (by rwa [same]) ?_
          simpa [WillTakeShared, reading] using next
      · refine accounted.downstream rfl rfl rfl rfl (List.Subset.refl _) ?_ ?_
        · intro refreshScope' repositories' mem named
          rw [rest, List.mem_cons] at mem
          cases mem with
          | inl head =>
            -- The message is merged: its list is now part of the shared set.
            rw [WatchEventMessage.dirty.injEq] at head
            rw [head.2.2] at named
            refine .shared ?_ (.inr (.inl rfl))
            rw [same]
            exact TouchedRepositories.holds_record_message named
          | inr mem => exact .piped refreshScope' repositories' mem named
        · intro held _
          refine .shared ?_ (.inr (.inl rfl))
          rw [same]
          exact held.record _
  · next signalling =>
    cases stepped
    refine accounted.downstream rfl rfl rfl rfl (List.Subset.refl _)
      (fun _ _ mem named => .piped _ _ mem named) ?_
    intro held _
    exact .shared held (.inl rfl)
  · cases stepped

end Accounted

structure Legible (s : State) : Prop where
  reading : s.reader ≠ .stopped
  versions : ∀ message ∈ s.pipe, message.schemaVersion = 2

section Frame

variable {Path : Type} {s t : State}

theorem Legible.notify (legible : s.Legible) (databaseArtifact : Path → Bool)
    (notification : Notification Path) : (s.notify databaseArtifact notification).Legible := by
  rw [State.notify]
  split
  · exact legible
  · exact ⟨legible.reading, legible.versions⟩

structure Quiet (s t : State) : Prop where
  recorded : t.recorded = s.recorded
  legible : s.Legible → t.Legible

theorem advance_quiet {position : Nat} (stepped : s.advance position = some t) : Quiet s t := by
  rw [State.advance] at stepped
  split at stepped <;> cases stepped
  · exact ⟨rfl, fun legible => ⟨legible.reading, legible.versions⟩⟩
  · exact ⟨rfl, fun legible => ⟨legible.reading, legible.versions⟩⟩

theorem legible_emit {message : WatchEventMessage} (legible : s.Legible)
    (version : message.schemaVersion = 2) (reader : t.reader = s.reader)
    (pipe : t.pipe = s.pipe ++ [message]) : t.Legible := by
  refine ⟨reader ▸ legible.reading, fun other mem => ?_⟩
  rw [pipe, List.mem_append, List.mem_singleton] at mem
  cases mem with
  | inl mem => exact legible.versions other mem
  | inr last => rwa [last]

theorem work_quiet {encodedLength : WatchEventMessage → Nat}
    (stepped : s.work encodedLength = some t) : Quiet s t := by
  rw [State.work] at stepped
  split at stepped
  · obtain ⟨signal, found, rfl⟩ := Option.map_eq_some_iff.1 stepped
    exact ⟨rfl, fun legible => ⟨legible.reading, legible.versions⟩⟩
  · cases stepped
    exact ⟨rfl, fun legible => ⟨legible.reading, legible.versions⟩⟩
  · cases stepped
    exact ⟨rfl, fun legible => ⟨legible.reading, legible.versions⟩⟩
  · obtain ⟨message, emitted, rfl⟩ := Option.map_eq_some_iff.1 stepped
    obtain ⟨written, rfl, names⟩ := emitDirty_eq_some emitted
    exact ⟨rfl, fun legible => legible_emit legible rfl rfl rfl⟩
  · cases stepped
    exact ⟨rfl, fun legible => ⟨legible.reading, legible.versions⟩⟩
  · cases stepped
    exact ⟨rfl, fun legible => legible_emit legible rfl rfl rfl⟩

theorem merge_of_version (current : WatchEventState) {message : WatchEventMessage}
    (version : message.schemaVersion = 2) : ∃ shared, current.merge message = some shared := by
  cases message with
  | ready schemaVersion =>
    cases version
    exact ⟨_, rfl⟩
  | dirty schemaVersion refreshScope repositories =>
    cases version
    exact ⟨_, rfl⟩

theorem read_quiet (stepped : s.read = some t) : Quiet s t := by
  rw [State.read] at stepped
  split at stepped
  · next message pipe reading rest =>
    cases merged : s.shared.merge message with
    | none =>
      simp only [merged, Option.some.injEq] at stepped
      subst stepped
      refine ⟨rfl, fun legible => ?_⟩
      obtain ⟨shared, understood⟩ :=
        merge_of_version s.shared (legible.versions message (by simp [rest]))
      rw [merged] at understood
      cases understood
    | some shared =>
      simp only [merged, Option.some.injEq] at stepped
      subst stepped
      refine ⟨rfl, fun legible => ⟨?_, fun other mem => legible.versions other ?_⟩⟩
      · cases message <;> simp
      · rw [rest]
        exact List.mem_cons_of_mem _ mem
  · cases stepped
    exact ⟨rfl, fun legible => ⟨by simp, legible.versions⟩⟩
  · cases stepped

theorem receive_quiet (stepped : s.receive = some t) : Quiet s t := by
  rw [State.receive] at stepped
  split at stepped <;> cases stepped
  · exact ⟨rfl, fun legible => ⟨legible.reading, legible.versions⟩⟩
  · exact ⟨rfl, fun legible => ⟨legible.reading, legible.versions⟩⟩

theorem supervise_quiet {overrides : ScanOverrides} (stepped : s.supervise overrides = some t) :
    Quiet s t := by
  rw [State.supervise] at stepped
  split at stepped <;> cases stepped
  all_goals exact ⟨rfl, fun legible => ⟨legible.reading, legible.versions⟩⟩

end Frame

/-- What holds between any two steps: every recorded event is accounted for. -/
structure Coalesced (s : State) : Prop where
  legible : s.Legible
  accounted : ∀ index scope, s.recorded[index]? = some scope → s.Accounted index scope

namespace Coalesced

variable {Path : Type} {s t : State}

theorem notify (coalesced : s.Coalesced) (databaseArtifact : Path → Bool)
    (notification : Notification Path) : (s.notify databaseArtifact notification).Coalesced := by
  refine ⟨coalesced.legible.notify databaseArtifact notification, ?_⟩
  intro index scope found
  rw [State.notify] at found
  cases forwarded : forwardEvent databaseArtifact notification with
  | none =>
    simp only [forwarded] at found
    exact (coalesced.accounted index scope found).notify databaseArtifact notification
  | some report =>
    simp only [forwarded] at found
    rw [List.getElem?_append] at found
    split at found
    · exact (coalesced.accounted index scope found).notify databaseArtifact notification
    · -- The new event is in the pending set, and its callback is on its way.
      rw [List.getElem?_singleton] at found
      split at found
      · cases found
        rw [State.notify, forwarded]
        exact .pending (TouchedRepositories.holds_record_self _ (forwardEvent_relevant forwarded))
          (.inr (.inl (by simp)))
      · cases found

theorem quiet (coalesced : s.Coalesced) (quiet : Quiet s t)
    (kept : ∀ index scope, index < s.recorded.length → s.Accounted index scope →
      t.Accounted index scope) : t.Coalesced := by
  refine ⟨quiet.legible coalesced.legible, fun index scope found => ?_⟩
  rw [quiet.recorded] at found
  exact kept index scope (List.getElem?_eq_some_iff.1 found).1
    (coalesced.accounted index scope found)

theorem step (coalesced : s.Coalesced) {setting : Setting Path} {action : Action Path}
    (stepped : s.step setting action = some t) : t.Coalesced := by
  cases action with
  | notify notification =>
    cases stepped
    exact coalesced.notify setting.databaseArtifact notification
  | callback position =>
    exact coalesced.quiet (advance_quiet stepped) fun _ _ _ accounted => accounted.advance stepped
  | work => exact coalesced.quiet (work_quiet stepped) fun _ _ _ accounted => accounted.work stepped
  | read => exact coalesced.quiet (read_quiet stepped) fun _ _ _ accounted => accounted.read stepped
  | receive =>
    exact coalesced.quiet (receive_quiet stepped) fun _ _ _ accounted => accounted.receive stepped
  | supervise =>
    exact coalesced.quiet (supervise_quiet stepped) fun _ _ recorded accounted =>
      accounted.supervise recorded stepped

end Coalesced

end State

theorem coalesced_start : start.Coalesced where
  legible := ⟨by simp [start], by simp [start]⟩
  accounted := by simp [start]

theorem coalesced_run {Path : Type} {setting : Setting Path} {actions : List (Action Path)}
    {s : State} (ran : run setting actions = some s) : s.Coalesced :=
  Steps.run_keeps (fun _ _ _ coalesced stepped => coalesced.step stepped) coalesced_start ran

/-- In every state of every run, each event recorded so far is covered by a pass taken after it,
or is held where the next party will take it; and the reader is never stopped by a message. -/
theorem recorded_event_accounted {Path : Type} (setting : Setting Path)
    (actions : List (Action Path)) (s : State) (ran : run setting actions = some s) :
    s.reader ≠ .stopped ∧
      ∀ index scope, s.recorded[index]? = some scope → s.Accounted index scope :=
  ⟨(coalesced_run ran).legible.reading, (coalesced_run ran).accounted⟩

def plainEncodedLength : WatchEventMessage → Nat
  | .ready schemaVersion => "\x7b\"type\":\"ready\",\"schema_version\":\x7d".utf8ByteSize
      + (toString schemaVersion).utf8ByteSize
  | .dirty schemaVersion refreshScope repositories =>
    "\x7b\"type\":\"dirty\",\"schema_version\":,\"refresh_scope\":,\"repositories\":[]\x7d".utf8ByteSize
      + (toString schemaVersion).utf8ByteSize + (toString refreshScope).utf8ByteSize
      + (",".intercalate (repositories.map fun name => "\"" ++ name ++ "\"")).utf8ByteSize

def exampleSetting : Setting String where
  databaseArtifact := (· == "graph.db")
  encodedLength := plainEncodedLength
  repository := none

/-- Two events of different repositories: the second is recorded after the worker took the first
and shares its token with nothing yet. -/
def exampleActions : List (Action String) :=
  [.work, .notify (.event (.ok (.repositories ["api"])) false false), .callback 0, .work, .work,
    .work, .work, .read, .read, .read, .notify (.event (.ok (.repositories ["web"])) true false),
    .receive, .supervise, .supervise, .supervise, .supervise]

theorem recorded_event_accounted_two :
    ∃ s, run exampleSetting exampleActions = some s ∧
      s.recorded = [.repositories ["api"], .repositories ["web"]] ∧
      s.passes = [⟨⟨none, ["api"]⟩, 2⟩] ∧
      s.Accounted 0 (.repositories ["api"]) ∧ s.Accounted 1 (.repositories ["web"]) := by
  have values : (run exampleSetting exampleActions).map (fun s => (s.recorded, s.passes)) =
      some ([.repositories ["api"], .repositories ["web"]], [⟨⟨none, ["api"]⟩, 2⟩]) := by
    decide +kernel
  obtain ⟨s, ran, same⟩ := Option.map_eq_some_iff.1 values
  rw [Prod.mk.injEq] at same
  have accounted := (recorded_event_accounted exampleSetting exampleActions s ran).2
  rw [same.1] at accounted
  exact ⟨s, ran, same.1, same.2, accounted 0 _ rfl, accounted 1 _ rfl⟩

end CodeSystemGraph.SyncWatch
