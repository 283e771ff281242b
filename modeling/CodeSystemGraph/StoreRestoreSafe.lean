import CodeSystemGraph.StoreRestore

/-!
What the restore keeps under interference. The other process only changes what the
destination names and the file it names; whatever the restore has put into its staging
directory or its safety backup stays as it is.
-/

namespace CodeSystemGraph.StoreRestore

variable {Digest : Type}

/-- A whole database: the original, one of the other process, or the validated copy. -/
def File.Complete (setting : Setting Digest) (file : File) : Prop :=
  file.origin = .original ∨ file.origin = .other ∨
    file.origin = .backup ∧ file.bytes = setting.backup

namespace State

variable (setting : Setting Digest) (s : State Digest)

def SafetyHolds (digest : Digest) : Prop :=
  ∃ safety, s.disk.names .safety = some safety ∧ setting.digest (s.disk.files safety).bytes = digest

/-- What the publication relies on: with a snapshot, that the safety backup has its digest. -/
def Expects : Option (DestinationSnapshot Digest) → Prop
  | none => s.databaseExisted = false
  | some snapshot => s.snapshot = some snapshot ∧ s.SafetyHolds setting snapshot.digest

/-- The staged file is not at the destination. -/
def Staged : Prop :=
  ∃ staged, s.disk.names .staging = some staged ∧ s.disk.names .destination ≠ some staged

def Ready : Prop :=
  ∃ staged, s.disk.names .staging = some staged ∧ s.disk.names .destination ≠ some staged ∧
    s.disk.files staged = { bytes := setting.backup, origin := .backup }

def Present : Prop := (s.disk.names .destination).isSome = true

/-- Nothing of the backup is at the destination yet. -/
def Unpublished : Prop :=
  ∀ identity, s.disk.names .destination = some identity →
    (s.disk.files identity).origin ≠ .backup

/-- One file was displaced; it is in the staging directory, as it was. -/
def Holding (identity : Nat) (bytes : List UInt8) : Prop :=
  s.displaced = [(identity, bytes)] ∧ s.disk.names .staging = some identity ∧
    s.disk.names .destination ≠ some identity ∧ (s.disk.files identity).bytes = bytes ∧
    (s.disk.files identity).Complete setting

/-- Every displaced file is at the destination again or in the staging directory, or it was at the
destination again and the other process replaced it there. -/
def Recovered : Prop :=
  ∀ entry ∈ s.displaced, s.disk.names .destination = some entry.1 ∨
    s.disk.names .staging = some entry.1 ∨ entry.1 ∈ s.replaced

/-- The displaced file had the identity and the digest of the snapshot, and the safety backup has
its bytes. -/
def Restored : Prop :=
  ∃ snapshot bytes safety, s.snapshot = some snapshot ∧
    s.displaced = [(snapshot.identity, bytes)] ∧ setting.digest bytes = snapshot.digest ∧
    s.disk.names .safety = some safety ∧ (s.disk.files safety).bytes = bytes

/-- What holds before each call. -/
def PhaseSound : Phase Digest → Prop
  | .checking => s.displaced = [] ∧ s.Unpublished
  | .locking => s.displaced = [] ∧ s.Unpublished
  | .identifying .before => s.displaced = []
  | .digesting .before _ => s.displaced = []
  | .copying _ => s.displaced = []
  | .linkingSafety _ safetyDigest => s.displaced = [] ∧
      ∃ copy, s.disk.names .safetyStaging = some copy ∧
        setting.digest (s.disk.files copy).bytes = safetyDigest
  | .identifying (.after _ safetyDigest) => s.displaced = [] ∧ s.SafetyHolds setting safetyDigest
  | .digesting (.after _ safetyDigest) _ => s.displaced = [] ∧ s.SafetyHolds setting safetyDigest
  | .creatingStaging expected => s.displaced = [] ∧ s.Expects setting expected
  | .filling expected => s.displaced = [] ∧ s.Expects setting expected ∧ s.Staged
  | .readying expected => s.displaced = [] ∧ s.Expects setting expected ∧ s.Ready setting
  | .comparingIdentity (.unchanged expected) =>
      s.displaced = [] ∧ s.Expects setting (some expected) ∧ s.Ready setting
  | .comparingDigest (.unchanged expected) =>
      s.displaced = [] ∧ s.Expects setting (some expected) ∧ s.Ready setting
  | .publishing expected => s.displaced = [] ∧ s.Expects setting expected ∧ s.Ready setting
  | .identifying (.displaced expected) =>
      s.Expects setting (some expected) ∧ ∃ identity bytes, s.Holding setting identity bytes
  | .digesting (.displaced expected) identity =>
      s.Expects setting (some expected) ∧ ∃ bytes, s.Holding setting identity bytes
  | .rollingBack _ => ∃ identity bytes, s.Holding setting identity bytes
  | .comparingIdentity (.rolledBack _) => s.Recovered
  | .comparingDigest (.rolledBack _) => s.Recovered
  | .cleaning .ok _ => s.databaseExisted = true → s.Restored setting
  | .cleaning (.error _ _) _ => s.displaced = []
  | .returned .ok => s.databaseExisted = true → s.Restored setting
  | .returned (.error _ _) => s.Recovered

structure Sound : Prop where
  complete : ∀ identity, s.disk.names .destination = some identity →
    (s.disk.files identity).Complete setting
  fresh : ∀ place identity, s.disk.names place = some identity → identity < s.disk.next
  apart : ∀ identity, s.disk.names .safety = some identity ∨
    s.disk.names .safetyStaging = some identity →
      s.disk.names .destination ≠ some identity ∧ s.disk.names .staging ≠ some identity
  phase : s.PhaseSound setting s.phase

/-- What the other process can do between two calls. -/
structure Interfered (s t : State Digest) : Prop where
  phase : t.phase = s.phase
  databaseExisted : t.databaseExisted = s.databaseExisted
  snapshot : t.snapshot = s.snapshot
  displaced : t.displaced = s.displaced
  names : ∀ place, place ≠ .destination → t.disk.names place = s.disk.names place
  files : ∀ identity, identity < s.disk.next → s.disk.names .destination ≠ some identity →
    t.disk.files identity = s.disk.files identity
  moved : ∀ identity, t.disk.names .destination = some identity →
    s.disk.names .destination = some identity ∨ s.disk.next ≤ identity
  kept : ∀ identity, s.disk.names .destination = some identity →
    t.disk.names .destination = some identity ∨ identity ∈ t.replaced
  replaced : s.replaced ⊆ t.replaced
  next : s.disk.next ≤ t.disk.next
  used : ∀ identity, t.disk.names .destination = some identity →
    s.disk.names .destination = some identity ∨ identity < t.disk.next
  foreign : ∀ identity, t.disk.names .destination = some identity →
    (t.disk.files identity).origin = .other
  stays : s.Present → t.Present

theorem interfered_create {s : State Digest} (bytes : List UInt8) (replaced : List Nat)
    (subset : s.replaced ⊆ replaced)
    (logged : ∀ identity, s.disk.names .destination = some identity → identity ∈ replaced) :
    Interfered s
      { s with disk := s.disk.create .destination { bytes, origin := .other }, replaced } where
  phase := rfl
  databaseExisted := rfl
  snapshot := rfl
  displaced := rfl
  names place elsewhere := Function.update_of_ne elsewhere _ _
  files identity used _ := Function.update_of_ne (Nat.ne_of_lt used) _ _
  moved identity named := by
    simp only [Disk.create, Function.update_self, Option.some.injEq] at named
    exact .inr (Nat.le_of_eq named)
  kept identity named := .inr (logged identity named)
  replaced := subset
  next := Nat.le_succ _
  used identity named := by
    simp only [Disk.create, Function.update_self, Option.some.injEq] at named
    exact .inr (Nat.lt_succ_of_le (Nat.le_of_eq named.symm))
  foreign identity named := by
    simp only [Disk.create, Function.update_self, Option.some.injEq] at named
    subst named
    simp only [Disk.create, Function.update_self]
  stays _ := by simp [Present, Disk.create]

theorem interfered {s t : State Digest} {interference : Interference}
    (stepped : s.interfere interference = some t) : Interfered s t := by
  cases interference with
  | create bytes =>
    rw [interfere] at stepped
    split at stepped
    · cases stepped
    · next absent =>
      cases stepped
      refine interfered_create bytes s.replaced (List.Subset.refl _) ?_
      intro identity named
      rw [absent] at named
      cases named
  | replace bytes =>
    rw [interfere] at stepped
    split at stepped
    · next identity named =>
      cases stepped
      refine interfered_create bytes _ (List.subset_append_left _ _) ?_
      intro other same
      rw [named, Option.some.injEq] at same
      rw [same]
      exact List.mem_append_right _ (List.mem_singleton_self _)
    · cases stepped
  | rewrite bytes =>
    rw [interfere] at stepped
    split at stepped
    · next identity named =>
      cases stepped
      refine ⟨rfl, rfl, rfl, rfl, ?_, ?_, ?_, ?_, ?_, ?_, ?_, ?_, ?_⟩
      · exact fun _ _ => rfl
      · intro other _ elsewhere
        have apart : other ≠ identity := by
          intro same
          rw [same] at elsewhere
          exact elsewhere named
        exact Function.update_of_ne apart _ _
      · exact fun _ => .inl
      · exact fun _ => .inl
      · exact List.Subset.refl _
      · exact Nat.le_refl _
      · exact fun _ => .inl
      · intro other same
        have same : s.disk.names .destination = some other := same
        rw [named, Option.some.injEq] at same
        subst same
        simp only [Disk.rewrite, Function.update_self]
      · exact id
    · cases stepped

section Interference

variable {setting} {s t : State Digest} (other : Interfered s t)
include other

theorem Interfered.untouched {place : Place} {identity : Nat} (elsewhere : place ≠ .destination)
    (named : s.disk.names place = some identity) (used : identity < s.disk.next)
    (apart : s.disk.names .destination ≠ some identity) :
    t.disk.names place = some identity ∧ t.disk.names .destination ≠ some identity ∧
      t.disk.files identity = s.disk.files identity := by
  refine ⟨?_, ?_, other.files identity used apart⟩
  · rw [other.names place elsewhere, named]
  · intro moved
    cases other.moved identity moved with
    | inl before => exact apart before
    | inr fresh => omega

theorem SafetyHolds.interfered (sound : s.Sound setting) {digest : Digest}
    (holds : s.SafetyHolds setting digest) : t.SafetyHolds setting digest := by
  obtain ⟨safety, named, digested⟩ := holds
  obtain ⟨still, -, same⟩ := other.untouched (by decide) named (sound.fresh _ _ named)
    (sound.apart safety (.inl named)).1
  exact ⟨safety, still, by rw [same, digested]⟩

theorem Expects.interfered (sound : s.Sound setting)
    {expected : Option (DestinationSnapshot Digest)} (expects : s.Expects setting expected) :
    t.Expects setting expected := by
  cases expected with
  | none => exact other.databaseExisted.trans expects
  | some snapshot =>
    exact ⟨other.snapshot.trans expects.1, SafetyHolds.interfered other sound expects.2⟩

theorem Staged.interfered (sound : s.Sound setting) (staged : s.Staged) : t.Staged := by
  obtain ⟨identity, named, apart⟩ := staged
  obtain ⟨still, apart, -⟩ := other.untouched (by decide) named (sound.fresh _ _ named) apart
  exact ⟨identity, still, apart⟩

theorem Ready.interfered (sound : s.Sound setting) (ready : s.Ready setting) : t.Ready setting := by
  obtain ⟨identity, named, apart, origin⟩ := ready
  obtain ⟨still, apart, same⟩ := other.untouched (by decide) named (sound.fresh _ _ named) apart
  exact ⟨identity, still, apart, by rw [same, origin]⟩

theorem Holding.interfered (sound : s.Sound setting) {identity : Nat} {bytes : List UInt8}
    (holding : s.Holding setting identity bytes) : t.Holding setting identity bytes := by
  obtain ⟨displaced, named, apart, content, complete⟩ := holding
  obtain ⟨still, apart, same⟩ := other.untouched (by decide) named (sound.fresh _ _ named) apart
  exact ⟨other.displaced.trans displaced, still, apart, by rw [same, content], by rwa [same]⟩

theorem Recovered.interfered (recovered : s.Recovered) : t.Recovered := by
  intro entry mem
  rw [other.displaced] at mem
  obtain back | staged | gone := recovered entry mem
  · cases other.kept _ back with
    | inl back => exact .inl back
    | inr gone => exact .inr (.inr gone)
  · exact .inr (.inl ((other.names _ (by decide)).trans staged))
  · exact .inr (.inr (other.replaced gone))

theorem Restored.interfered (sound : s.Sound setting) (restored : s.Restored setting) :
    t.Restored setting := by
  obtain ⟨snapshot, bytes, safety, taken, displaced, digested, named, content⟩ := restored
  obtain ⟨still, -, same⟩ := other.untouched (by decide) named (sound.fresh _ _ named)
    (sound.apart safety (.inl named)).1
  exact ⟨snapshot, bytes, safety, other.snapshot.trans taken, other.displaced.trans displaced,
    digested, still, by rw [same, content]⟩

theorem PhaseSound.interfered (sound : s.Sound setting) {phase : Phase Digest}
    (phaseSound : s.PhaseSound setting phase) : t.PhaseSound setting phase := by
  have undisplaced : s.displaced = [] → t.displaced = [] := other.displaced.trans
  have unpublished : t.Unpublished := fun identity named => by simp [other.foreign identity named]
  cases phase with
  | checking => exact ⟨undisplaced phaseSound.1, unpublished⟩
  | locking => exact ⟨undisplaced phaseSound.1, unpublished⟩
  | copying before => exact undisplaced phaseSound
  | identifying capture =>
    cases capture with
    | before => exact undisplaced phaseSound
    | after before digest =>
      exact ⟨undisplaced phaseSound.1, SafetyHolds.interfered other sound phaseSound.2⟩
    | displaced expected =>
      obtain ⟨expects, identity, bytes, holding⟩ := phaseSound
      exact ⟨Expects.interfered other sound expects, identity, bytes,
        Holding.interfered other sound holding⟩
  | digesting capture identity =>
    cases capture with
    | before => exact undisplaced phaseSound
    | after before digest =>
      exact ⟨undisplaced phaseSound.1, SafetyHolds.interfered other sound phaseSound.2⟩
    | displaced expected =>
      obtain ⟨expects, bytes, holding⟩ := phaseSound
      exact ⟨Expects.interfered other sound expects, bytes, Holding.interfered other sound holding⟩
  | linkingSafety before digest =>
    obtain ⟨displaced, copy, named, digested⟩ := phaseSound
    obtain ⟨still, -, same⟩ := other.untouched (by decide) named (sound.fresh _ _ named)
      (sound.apart copy (.inr named)).1
    exact ⟨undisplaced displaced, copy, still, by rw [same, digested]⟩
  | creatingStaging expected =>
    exact ⟨undisplaced phaseSound.1, Expects.interfered other sound phaseSound.2⟩
  | filling expected =>
    exact ⟨undisplaced phaseSound.1, Expects.interfered other sound phaseSound.2.1,
      Staged.interfered other sound phaseSound.2.2⟩
  | readying expected
  | publishing expected =>
    exact ⟨undisplaced phaseSound.1, Expects.interfered other sound phaseSound.2.1,
      Ready.interfered other sound phaseSound.2.2⟩
  | comparingIdentity comparison
  | comparingDigest comparison =>
    cases comparison with
    | unchanged expected =>
      exact ⟨undisplaced phaseSound.1, Expects.interfered other sound phaseSound.2.1,
        Ready.interfered other sound phaseSound.2.2⟩
    | rolledBack displaced => exact Recovered.interfered other phaseSound
  | rollingBack displaced =>
    obtain ⟨identity, bytes, holding⟩ := phaseSound
    exact ⟨identity, bytes, Holding.interfered other sound holding⟩
  | cleaning result reported =>
    cases result with
    | ok =>
      intro existed
      exact Restored.interfered other sound (phaseSound (other.databaseExisted ▸ existed))
    | error operation cleanupFailed => exact undisplaced phaseSound
  | returned result =>
    cases result with
    | ok =>
      intro existed
      exact Restored.interfered other sound (phaseSound (other.databaseExisted ▸ existed))
    | error operation cleanupFailed => exact Recovered.interfered other phaseSound

theorem Sound.interfered (sound : s.Sound setting) : t.Sound setting where
  complete identity named := .inr (.inl (other.foreign identity named))
  fresh place identity named := by
    by_cases here : place = .destination
    · subst here
      cases other.used identity named with
      | inl before => exact Nat.lt_of_lt_of_le (sound.fresh _ _ before) other.next
      | inr used => exact used
    · rw [other.names place here] at named
      exact Nat.lt_of_lt_of_le (sound.fresh _ _ named) other.next
  apart identity named := by
    have before : s.disk.names .safety = some identity ∨
        s.disk.names .safetyStaging = some identity :=
      named.imp (other.names _ (by decide)).symm.trans (other.names _ (by decide)).symm.trans
    have used : identity < s.disk.next := by
      cases before with
      | inl named => exact sound.fresh _ _ named
      | inr named => exact sound.fresh _ _ named
    refine ⟨fun moved => ?_, ?_⟩
    · cases other.moved identity moved with
      | inl here => exact (sound.apart identity before).1 here
      | inr fresh => omega
    · rw [other.names _ (by decide)]
      exact (sound.apart identity before).2
  phase := by
    rw [other.phase]
    exact PhaseSound.interfered other sound sound.phase

end Interference

section Calls

variable {setting} {s t : State Digest}

theorem recovered_of_undisplaced (undisplaced : s.displaced = []) : s.Recovered := by
  intro entry mem
  rw [undisplaced] at mem
  cases mem

theorem Sound.go (sound : s.Sound setting) {phase : Phase Digest}
    (phaseSound : s.PhaseSound setting phase) : (s.go phase).Sound setting where
  complete := sound.complete
  fresh := sound.fresh
  apart := sound.apart
  phase := by
    cases phase with
    | identifying capture => cases capture <;> exact phaseSound
    | digesting capture => cases capture <;> exact phaseSound
    | creatingStaging expected => cases expected <;> exact phaseSound
    | filling expected => cases expected <;> exact phaseSound
    | readying expected => cases expected <;> exact phaseSound
    | publishing expected => cases expected <;> exact phaseSound
    | comparingIdentity comparison => cases comparison <;> exact phaseSound
    | comparingDigest comparison => cases comparison <;> exact phaseSound
    | cleaning result => cases result <;> exact phaseSound
    | returned result => cases result <;> exact phaseSound
    | _ => exact phaseSound

theorem Sound.fail (sound : s.Sound setting) (recovered : s.Recovered) (error : RestoreError) :
    (s.fail error).Sound setting :=
  sound.go recovered

theorem Sound.failAndClean (sound : s.Sound setting) (undisplaced : s.displaced = [])
    (error : RestoreError) : (s.failAndClean error).Sound setting :=
  sound.go undisplaced

theorem Sound.captureFailed (sound : s.Sound setting) {capture : Capture Digest}
    (phaseSound : s.PhaseSound setting (.identifying capture)) :
    (s.captureFailed capture).Sound setting := by
  cases capture with
  | before => exact sound.fail (recovered_of_undisplaced phaseSound) _
  | after before digest => exact sound.fail (recovered_of_undisplaced phaseSound.1) _
  | displaced expected => exact sound.go phaseSound.2

theorem Sound.compareFailed (sound : s.Sound setting) {comparison : Comparison Digest}
    (phaseSound : s.PhaseSound setting (.comparingIdentity comparison)) :
    (s.compareFailed comparison).Sound setting := by
  cases comparison with
  | unchanged expected => exact sound.go phaseSound.1
  | rolledBack displaced => exact sound.fail phaseSound _

theorem Sound.compared (sound : s.Sound setting) {comparison : Comparison Digest}
    (phaseSound : s.PhaseSound setting (.comparingIdentity comparison)) (same : Bool) :
    (s.compared same comparison).Sound setting := by
  cases comparison with
  | unchanged expected =>
    cases same with
    | true => exact sound.go phaseSound
    | false => exact sound.failAndClean phaseSound.1 _
  | rolledBack displaced =>
    cases same with
    | true => exact sound.fail phaseSound _
    | false => exact sound.fail phaseSound _

theorem Sound.captured [DecidableEq Digest] (injective : Function.Injective setting.digest)
    (sound : s.Sound setting) {capture : Capture Digest} {identity : Nat} {bytes : List UInt8}
    (phaseSound : s.PhaseSound setting (.digesting capture identity))
    (read : s.disk.read capture.place = some bytes) :
    (s.captured ⟨identity, setting.digest bytes⟩ capture).Sound setting := by
  cases capture with
  | before => exact sound.go phaseSound
  | after before safetyDigest =>
    rw [State.captured]
    split
    · exact sound.fail (recovered_of_undisplaced phaseSound.1) _
    · next same =>
      rw [not_or, not_not, not_not] at same
      obtain ⟨same, digest⟩ := same
      refine ⟨sound.complete, sound.fresh, sound.apart, phaseSound.1, rfl, ?_⟩
      rw [← same, ← digest]
      exact phaseSound.2
  | displaced expected =>
    obtain ⟨expects, displaced, holding⟩ := phaseSound
    rw [State.captured]
    split
    · next same =>
      apply sound.go
      intro _
      obtain ⟨logged, named, -, content, -⟩ := holding
      obtain ⟨safety, backup, digested⟩ := expects.2
      have read : displaced = bytes := by
        rw [Disk.read, Capture.place, named, Option.map_some, Option.some.injEq] at read
        rw [← content, read]
      refine ⟨expected, displaced, safety, expects.1, ?_, ?_, backup, ?_⟩
      · rw [same]
        exact logged
      · rw [same, read]
      · apply injective
        rw [digested, same, read]
    · exact sound.go ⟨identity, displaced, holding⟩

theorem Sound.lock (sound : s.Sound setting) (holds : s.PhaseSound setting .locking) {identity : Nat}
    (bytes : List UInt8) :
    State.Sound setting { s with
      disk := s.disk.rewrite identity { s.disk.files identity with bytes }
      phase := .identifying .before } where
  complete other named := by
    by_cases same : other = identity
    · subst same
      simp only [Disk.rewrite, Function.update_self]
      obtain original | foreign | ⟨backup, -⟩ := sound.complete other named
      · exact .inl original
      · exact .inr (.inl foreign)
      · exact absurd backup (holds.2 other named)
    · simp only [Disk.rewrite, Function.update_of_ne same]
      exact sound.complete other named
  fresh := sound.fresh
  apart := sound.apart
  phase := holds.1

theorem create_files {disk : Disk} {place : Place} {file : File} {identity : Nat}
    (used : identity < disk.next) : (disk.create place file).files identity = disk.files identity :=
  Function.update_of_ne (Nat.ne_of_lt used) _ _

theorem create_names_self {disk : Disk} {place : Place} {file : File} :
    (disk.create place file).names place = some disk.next :=
  Function.update_self ..

theorem create_names_of_ne {disk : Disk} {place elsewhere : Place} {file : File}
    (apart : elsewhere ≠ place) : (disk.create place file).names elsewhere = disk.names elsewhere :=
  Function.update_of_ne apart _ _

theorem fresh_create {disk : Disk} {place : Place} {file : File}
    (fresh : ∀ place identity, disk.names place = some identity → identity < disk.next)
    (other : Place) (identity : Nat) (named : (disk.create place file).names other = some identity) :
    identity < (disk.create place file).next := by
  by_cases same : other = place
  · subst same
    rw [create_names_self, Option.some.injEq] at named
    exact Nat.lt_succ_of_le (Nat.le_of_eq named.symm)
  · rw [create_names_of_ne same] at named
    exact Nat.lt_succ_of_lt (fresh other identity named)

theorem Sound.copy (sound : s.Sound setting) (undisplaced : s.displaced = []) (bytes : List UInt8)
    (before : DestinationSnapshot Digest) :
    State.Sound setting { s with
      disk := s.disk.create .safetyStaging { bytes, origin := .safetyCopy }
      phase := .linkingSafety before (setting.digest bytes) } where
  complete identity named := by
    rw [create_names_of_ne (by decide)] at named
    rw [create_files (sound.fresh _ _ named)]
    exact sound.complete identity named
  fresh := fresh_create sound.fresh
  apart identity named := by
    rw [create_names_self, create_names_of_ne (by decide), Option.some.injEq] at named
    rw [create_names_of_ne (by decide), create_names_of_ne (by decide)]
    cases named with
    | inl safety => exact sound.apart identity (.inl safety)
    | inr new =>
      constructor
      · intro here
        exact absurd (sound.fresh _ _ here) (by omega)
      · intro here
        exact absurd (sound.fresh _ _ here) (by omega)
  phase := by
    refine ⟨undisplaced, s.disk.next, create_names_self, ?_⟩
    simp only [Disk.create, Function.update_self]

theorem hardLink_eq_some {disk linked : Disk} {source target : Place}
    (result : disk.hardLink source target = some linked) :
    ∃ identity, disk.names source = some identity ∧ disk.names target = none ∧
      linked = { disk with names := Function.update disk.names target (some identity) } := by
  rw [Disk.hardLink] at result
  split at result
  · next identity named absent =>
    cases result
    exact ⟨identity, named, absent, rfl⟩
  · cases result

theorem Sound.linkSafety (sound : s.Sound setting) {before : DestinationSnapshot Digest}
    {digest : Digest} (phaseSound : s.PhaseSound setting (.linkingSafety before digest))
    {linked : Disk} (result : s.disk.hardLink .safetyStaging .safety = some linked) :
    State.Sound setting { s with
      disk := linked.remove .safetyStaging
      phase := .identifying (.after before digest) } := by
  obtain ⟨identity, named, -, rfl⟩ := hardLink_eq_some result
  obtain ⟨undisplaced, copy, copied, digested⟩ := phaseSound
  rw [named, Option.some.injEq] at copied
  subst copied
  refine ⟨sound.complete, ?_, ?_, undisplaced, identity, rfl, digested⟩
  · intro place other here
    cases place with
    | destination => exact sound.fresh _ _ here
    | staging => exact sound.fresh _ _ here
    | safetyStaging => cases here
    | safety =>
      cases here
      exact sound.fresh _ _ named
  · intro other here
    cases here with
    | inl safety =>
      cases safety
      exact sound.apart identity (.inr named)
    | inr staged => cases staged

theorem Sound.createStaging (sound : s.Sound setting)
    {expected : Option (DestinationSnapshot Digest)}
    (phaseSound : s.PhaseSound setting (.creatingStaging expected)) :
    State.Sound setting { s with
      disk := s.disk.create .staging { bytes := [], origin := .incomplete }
      phase := .filling expected } where
  complete identity named := by
    rw [create_names_of_ne (by decide)] at named
    rw [create_files (sound.fresh _ _ named)]
    exact sound.complete identity named
  fresh := fresh_create sound.fresh
  apart identity named := by
    rw [create_names_of_ne (by decide), create_names_of_ne (by decide)] at named
    rw [create_names_self, create_names_of_ne (by decide), Ne, Ne, Option.some.injEq]
    refine ⟨(sound.apart identity named).1, ?_⟩
    cases named with
    | inl safety => exact Nat.ne_of_gt (sound.fresh _ _ safety)
    | inr copy => exact Nat.ne_of_gt (sound.fresh _ _ copy)
  phase := by
    refine ⟨phaseSound.1, ?_, s.disk.next, create_names_self, ?_⟩
    · cases expected with
      | none => exact phaseSound.2
      | some snapshot =>
        obtain ⟨-, taken, safety, named, digested⟩ := phaseSound
        refine ⟨taken, safety, ?_, ?_⟩
        · rw [create_names_of_ne (by decide), named]
        · rw [create_files (sound.fresh _ _ named), digested]
    · rw [create_names_of_ne (by decide)]
      intro here
      exact absurd (sound.fresh _ _ here) (Nat.lt_irrefl _)

theorem rewrite_files {disk : Disk} {identity other : Nat} {file : File} (apart : other ≠ identity) :
    (disk.rewrite identity file).files other = disk.files other :=
  Function.update_of_ne apart _ _

theorem Sound.fill (sound : s.Sound setting) {expected : Option (DestinationSnapshot Digest)}
    (phaseSound : s.PhaseSound setting (.filling expected)) {identity : Nat}
    (named : s.disk.names .staging = some identity) :
    State.Sound setting { s with
      disk := s.disk.rewrite identity { bytes := setting.backup, origin := .backup }
      phase := .readying expected } := by
  obtain ⟨undisplaced, expects, staged, here, apart⟩ := phaseSound
  rw [named, Option.some.injEq] at here
  subst here
  refine ⟨?_, sound.fresh, sound.apart, undisplaced, ?_, identity, named, apart, ?_⟩
  · intro other destination
    have different : other ≠ identity := by
      intro same
      rw [same] at destination
      exact apart destination
    rw [rewrite_files different]
    exact sound.complete other destination
  · cases expected with
    | none => exact expects
    | some snapshot =>
      obtain ⟨taken, safety, backup, digested⟩ := expects
      have different : safety ≠ identity := by
        intro same
        rw [same] at backup
        exact (sound.apart identity (.inl backup)).2 named
      exact ⟨taken, safety, backup, by rw [rewrite_files different, digested]⟩
  · simp only [Disk.rewrite, Function.update_self]

theorem Sound.publishNew (sound : s.Sound setting)
    (phaseSound : s.PhaseSound setting (.publishing none)) {linked : Disk}
    (result : s.disk.hardLink .staging .destination = some linked) :
    State.Sound setting { s with disk := linked, phase := .cleaning .ok false } := by
  obtain ⟨identity, named, -, rfl⟩ := hardLink_eq_some result
  obtain ⟨undisplaced, new, staged, here, apart, file⟩ := phaseSound
  rw [named, Option.some.injEq] at here
  subst here
  refine ⟨?_, ?_, ?_, ?_⟩
  · intro other destination
    cases destination
    exact .inr (.inr ⟨by rw [file], by rw [file]⟩)
  · intro place other here
    cases place with
    | destination =>
      cases here
      exact sound.fresh _ _ named
    | staging => exact sound.fresh _ _ here
    | safetyStaging => exact sound.fresh _ _ here
    | safety => exact sound.fresh _ _ here
  · intro other here
    have apart : s.disk.names .staging ≠ some other := (sound.apart other here).2
    exact ⟨named ▸ apart, apart⟩
  · intro existed
    have new : s.databaseExisted = false := new
    have existed : s.databaseExisted = true := existed
    rw [new] at existed
    cases existed

structure Exchanged (s t : State Digest) (staged here : Nat) : Prop where
  staging : s.disk.names .staging = some staged
  destination : s.disk.names .destination = some here
  staging' : t.disk.names .staging = some here
  destination' : t.disk.names .destination = some staged
  names : ∀ place, place ≠ .staging → place ≠ .destination →
    t.disk.names place = s.disk.names place
  files : t.disk.files = s.disk.files
  next : t.disk.next = s.disk.next
  displaced : t.displaced = s.displaced ++ [(here, (s.disk.files here).bytes)]
  snapshot : t.snapshot = s.snapshot
  databaseExisted : t.databaseExisted = s.databaseExisted

theorem exchange_eq_some {phase : Phase Digest} (result : s.exchange phase = some t) :
    t.phase = phase ∧ ∃ staged here, Exchanged s t staged here := by
  rw [State.exchange] at result
  split at result
  · next here disk destination exchanged =>
    cases result
    rw [Disk.exchange] at exchanged
    split at exchanged
    · next staged there staging destination' =>
      rw [destination, Option.some.injEq] at destination'
      subst destination'
      cases exchanged
      refine ⟨rfl, staged, here, staging, destination, rfl, rfl, ?_, rfl, rfl, rfl, rfl, rfl⟩
      intro place apart apart'
      simp only [Function.update_of_ne apart', Function.update_of_ne apart]
    · cases exchanged
  · cases result

theorem Exchanged.sound {staged here : Nat} (exchanged : Exchanged s t staged here)
    (sound : s.Sound setting) (complete : (s.disk.files staged).Complete setting)
    (phase : t.PhaseSound setting t.phase) : t.Sound setting where
  complete identity named := by
    rw [exchanged.destination', Option.some.injEq] at named
    rwa [exchanged.files, ← named]
  fresh place identity named := by
    rw [exchanged.next]
    cases place with
    | destination =>
      rw [exchanged.destination'] at named
      exact sound.fresh .staging identity (exchanged.staging.trans named)
    | staging =>
      rw [exchanged.staging'] at named
      exact sound.fresh .destination identity (exchanged.destination.trans named)
    | safetyStaging =>
      rw [exchanged.names _ (by decide) (by decide)] at named
      exact sound.fresh _ _ named
    | safety =>
      rw [exchanged.names _ (by decide) (by decide)] at named
      exact sound.fresh _ _ named
  apart identity named := by
    rw [exchanged.names _ (by decide) (by decide), exchanged.names _ (by decide) (by decide)] at named
    have apart := sound.apart identity named
    rw [exchanged.staging, exchanged.destination] at apart
    rw [exchanged.staging', exchanged.destination']
    exact ⟨apart.2, apart.1⟩
  phase := phase

theorem Exchanged.safetyHolds {staged here : Nat} (exchanged : Exchanged s t staged here)
    {digest : Digest} (holds : s.SafetyHolds setting digest) : t.SafetyHolds setting digest := by
  obtain ⟨safety, named, digested⟩ := holds
  exact ⟨safety, (exchanged.names _ (by decide) (by decide)).trans named,
    by rw [exchanged.files, digested]⟩

theorem Sound.publish (sound : s.Sound setting) {expected : DestinationSnapshot Digest}
    (phaseSound : s.PhaseSound setting (.publishing (some expected)))
    (result : s.exchange (.identifying (.displaced expected)) = some t) : t.Sound setting := by
  obtain ⟨phase, staged, here, exchanged⟩ := exchange_eq_some result
  obtain ⟨undisplaced, expects, ready, named, apart, file⟩ := phaseSound
  rw [exchanged.staging, Option.some.injEq] at named
  subst named
  refine exchanged.sound sound (.inr (.inr ⟨by rw [file], by rw [file]⟩)) ?_
  rw [phase]
  refine ⟨⟨exchanged.snapshot.trans expects.1, exchanged.safetyHolds expects.2⟩, here,
    (s.disk.files here).bytes, ?_, exchanged.staging', ?_, ?_, ?_⟩
  · rw [exchanged.displaced, undisplaced, List.nil_append]
  · rw [exchanged.destination', ← exchanged.destination]
    exact apart.symm
  · rw [exchanged.files]
  · rw [exchanged.files]
    exact sound.complete here exchanged.destination

theorem Sound.rollBack (sound : s.Sound setting) {identity : Nat} {bytes : List UInt8}
    (holding : s.Holding setting identity bytes) {phase : Phase Digest} (result : s.exchange phase = some t)
    (after : t.Recovered → t.PhaseSound setting phase) : t.Sound setting := by
  obtain ⟨samePhase, staged, here, exchanged⟩ := exchange_eq_some result
  obtain ⟨displaced, named, -, -, complete⟩ := holding
  rw [exchanged.staging, Option.some.injEq] at named
  subst named
  refine exchanged.sound sound complete ?_
  rw [samePhase]
  apply after
  intro entry mem
  rw [exchanged.displaced, displaced, List.singleton_append, List.mem_cons, List.mem_singleton] at mem
  cases mem with
  | inl first =>
    rw [first]
    exact .inl exchanged.destination'
  | inr second =>
    rw [second]
    exact .inr (.inl exchanged.staging')

theorem Sound.clean (sound : s.Sound setting) {result : RestoreResult} {reported : Bool}
    (phaseSound : s.PhaseSound setting (.cleaning result reported)) :
    State.Sound setting { s with disk := s.disk.remove .staging, phase := .returned result } where
  complete := sound.complete
  fresh place identity named := by
    by_cases here : place = .staging
    · subst here
      simp [Disk.remove] at named
    · simp only [Disk.remove, Function.update_of_ne here] at named
      exact sound.fresh place identity named
  apart identity named := ⟨(sound.apart identity named).1, by simp [Disk.remove]⟩
  phase := by
    cases result with
    | ok => exact phaseSound
    | error operation cleanupFailed => exact recovered_of_undisplaced phaseSound

theorem Sound.leaveStaging (sound : s.Sound setting) {result : RestoreResult} {reported : Bool}
    (phaseSound : s.PhaseSound setting (.cleaning result reported)) :
    (s.go (.returned (result.afterCleanup reported))).Sound setting := by
  apply sound.go
  cases result with
  | ok => exact phaseSound
  | error operation cleanupFailed => exact recovered_of_undisplaced phaseSound

theorem attempt_rule {α : Type} {succeeds : Bool} {call : Option α} {next : α → State Digest}
    {failed : State Digest} {good : State Digest → Prop}
    (succeeded : ∀ value, call = some value → good (next value)) (unsuccessful : good failed) :
    good (attempt succeeds call next failed) := by
  cases call with
  | none => exact unsuccessful
  | some value =>
    cases succeeds with
    | false => exact unsuccessful
    | true => exact succeeded value rfl

theorem Sound.identify (sound : s.Sound setting) {capture : Capture Digest}
    (holds : s.PhaseSound setting (.identifying capture)) {identity : Nat}
    (named : s.disk.names capture.place = some identity) :
    (s.go (.digesting capture identity)).Sound setting := by
  apply sound.go
  cases capture with
  | before => exact holds
  | after before digest => exact holds
  | displaced expected =>
    obtain ⟨expects, displaced, bytes, holding⟩ := holds
    have same : displaced = identity := Option.some.inj (holding.2.1.symm.trans named)
    exact ⟨expects, bytes, same ▸ holding⟩

theorem PhaseSound.undigested {capture : Capture Digest} {identity : Nat}
    (holds : s.PhaseSound setting (.digesting capture identity)) :
    s.PhaseSound setting (.identifying capture) := by
  cases capture with
  | before => exact holds
  | after before digest => exact holds
  | displaced expected => exact ⟨holds.1, identity, holds.2⟩

theorem phaseSound_comparing {comparison : Comparison Digest} :
    s.PhaseSound setting (.comparingDigest comparison) ↔
      s.PhaseSound setting (.comparingIdentity comparison) := by
  cases comparison <;> exact Iff.rfl

theorem Holding.recovered {identity : Nat} {bytes : List UInt8} (holding : s.Holding setting identity bytes) :
    s.Recovered := by
  intro entry mem
  rw [holding.1, List.mem_singleton] at mem
  rw [mem]
  exact .inr (.inl holding.2.1)

theorem Sound.restore [DecidableEq Digest] (injective : Function.Injective setting.digest)
    (sound : s.Sound setting) {succeeds : Bool} (stepped : s.restore setting succeeds = some t) :
    t.Sound setting := by
  have holds := sound.phase
  rw [State.restore] at stepped
  generalize s.phase = phase at holds stepped
  cases phase with
  | checking =>
    cases stepped
    refine attempt_rule (fun _ _ => ?_) ?_
    · exact ⟨sound.complete, sound.fresh, sound.apart, holds⟩
    · exact ⟨sound.complete, sound.fresh, sound.apart, holds.1, rfl⟩
  | locking =>
    cases stepped
    refine attempt_rule (fun _ _ => ?_) ?_
    · exact sound.lock holds _
    · exact sound.fail (recovered_of_undisplaced holds.1) _
  | identifying capture =>
    cases stepped
    exact attempt_rule (fun _ named => sound.identify holds named) (sound.captureFailed holds)
  | digesting capture identity =>
    cases stepped
    refine attempt_rule (fun bytes read => ?_) ?_
    · exact sound.captured injective holds read
    · exact sound.captureFailed holds.undigested
  | copying before =>
    cases stepped
    refine attempt_rule (fun bytes _ => ?_) ?_
    · exact sound.copy holds bytes before
    · exact sound.fail (recovered_of_undisplaced holds) _
  | linkingSafety before digest =>
    cases stepped
    refine attempt_rule (fun linked result => ?_) ?_
    · exact sound.linkSafety holds result
    · exact sound.fail (recovered_of_undisplaced holds.1) _
  | creatingStaging expected =>
    cases stepped
    refine attempt_rule (fun disk created => ?_) ?_
    · cases created
      exact sound.createStaging holds
    · exact sound.fail (recovered_of_undisplaced holds.1) _
  | filling expected =>
    cases stepped
    refine attempt_rule (fun identity named => ?_) ?_
    · exact sound.fill holds named
    · exact sound.failAndClean holds.1 _
  | readying expected =>
    cases expected with
    | none
    | some snapshot =>
      cases stepped
      exact attempt_rule (fun _ _ => sound.go holds) (sound.failAndClean holds.1 _)
  | comparingIdentity comparison =>
    cases stepped
    refine attempt_rule (fun identity named => ?_) (sound.compareFailed holds)
    split
    · exact sound.go (phaseSound_comparing.2 holds)
    · exact sound.compared holds false
  | comparingDigest comparison =>
    cases stepped
    have holds := phaseSound_comparing.1 holds
    exact attempt_rule (fun bytes _ => sound.compared holds _) (sound.compareFailed holds)
  | publishing expected =>
    cases expected with
    | none =>
      cases stepped
      refine attempt_rule (fun linked result => ?_) ?_
      · exact sound.publishNew holds result
      · exact sound.failAndClean holds.1 _
    | some snapshot =>
      cases stepped
      refine attempt_rule (fun next result => ?_) ?_
      · exact sound.publish holds result
      · exact sound.fail (recovered_of_undisplaced holds.1) _
  | rollingBack inspected =>
    obtain ⟨identity, bytes, holding⟩ := holds
    cases inspected with
    | none
    | some snapshot =>
      cases stepped
      refine attempt_rule (fun next result => ?_) (sound.fail holding.recovered _)
      exact sound.rollBack holding result id
  | cleaning result reported =>
    cases stepped
    refine attempt_rule (fun disk removed => ?_) (sound.leaveStaging holds)
    cases removed
    exact sound.clean holds
  | returned result => cases stepped

theorem Sound.step [DecidableEq Digest] (injective : Function.Injective setting.digest)
    (sound : s.Sound setting) {action : Action} (stepped : s.step setting action = some t) :
    t.Sound setting := by
  cases action with
  | restore succeeds => exact sound.restore injective stepped
  | interfere interference => exact Sound.interfered (State.interfered stepped) sound

theorem present_captureFailed (present : s.Present) (capture : Capture Digest) :
    (s.captureFailed capture).Present := by
  cases capture <;> exact present

theorem present_captured [DecidableEq Digest] (present : s.Present)
    (snapshot : DestinationSnapshot Digest) (capture : Capture Digest) :
    (s.captured snapshot capture).Present := by
  cases capture with
  | before => exact present
  | after before digest =>
    rw [captured]
    split <;> exact present
  | displaced expected =>
    rw [captured]
    split <;> exact present

theorem present_compared (present : s.Present) (same : Bool) (comparison : Comparison Digest) :
    (s.compared same comparison).Present ∧ (s.compareFailed comparison).Present := by
  cases comparison <;> cases same <;> exact ⟨present, present⟩

theorem present_exchange {phase : Phase Digest} (result : s.exchange phase = some t) : t.Present := by
  obtain ⟨-, staged, here, exchanged⟩ := exchange_eq_some result
  rw [Present, exchanged.destination']
  rfl

theorem present_restore [DecidableEq Digest] {succeeds : Bool}
    (stepped : s.restore setting succeeds = some t) (present : s.Present) : t.Present := by
  rw [State.restore] at stepped
  generalize s.phase = phase at stepped
  cases phase with
  | checking =>
    cases stepped
    refine attempt_rule (fun _ _ => ?_) ?_ <;> exact present
  | locking =>
    cases stepped
    refine attempt_rule (fun _ _ => ?_) ?_ <;> exact present
  | identifying capture =>
    cases stepped
    refine attempt_rule (fun _ _ => ?_) (present_captureFailed present capture)
    exact present
  | digesting capture identity =>
    cases stepped
    exact attempt_rule (fun _ _ => present_captured present _ capture)
      (present_captureFailed present capture)
  | copying before =>
    cases stepped
    refine attempt_rule (fun _ _ => ?_) ?_ <;> exact present
  | linkingSafety before digest =>
    cases stepped
    refine attempt_rule (fun linked result => ?_) ?_
    · obtain ⟨identity, -, -, rfl⟩ := hardLink_eq_some result
      exact present
    · exact present
  | creatingStaging expected =>
    cases stepped
    refine attempt_rule (fun disk created => ?_) ?_
    · cases created
      exact present
    · exact present
  | filling expected =>
    cases stepped
    refine attempt_rule (fun _ _ => ?_) ?_ <;> exact present
  | readying expected =>
    cases expected with
    | none =>
      cases stepped
      refine attempt_rule (fun _ _ => ?_) ?_ <;> exact present
    | some snapshot =>
      cases stepped
      refine attempt_rule (fun _ _ => ?_) ?_ <;> exact present
  | comparingIdentity comparison =>
    cases stepped
    refine attempt_rule (fun _ _ => ?_) (present_compared present false comparison).2
    split
    · exact present
    · exact (present_compared present false comparison).1
  | comparingDigest comparison =>
    cases stepped
    exact attempt_rule (fun _ _ => (present_compared present _ comparison).1)
      (present_compared present false comparison).2
  | publishing expected =>
    cases expected with
    | none =>
      cases stepped
      refine attempt_rule (fun linked result => ?_) ?_
      · obtain ⟨identity, -, -, rfl⟩ := hardLink_eq_some result
        rfl
      · exact present
    | some snapshot =>
      cases stepped
      refine attempt_rule (fun _ result => present_exchange result) ?_
      exact present
  | rollingBack inspected =>
    cases inspected with
    | none
    | some snapshot =>
      cases stepped
      refine attempt_rule (fun _ result => present_exchange result) ?_
      exact present
  | cleaning result reported =>
    cases stepped
    refine attempt_rule (fun disk removed => ?_) ?_
    · cases removed
      exact present
    · exact present
  | returned result => cases stepped

theorem present_step [DecidableEq Digest] {action : Action}
    (stepped : s.step setting action = some t) (present : s.Present) : t.Present := by
  cases action with
  | restore succeeds => exact present_restore stepped present
  | interfere interference => exact (interfered stepped).stays present

end Calls

end State

theorem sound_start (setting : Setting Digest) (original : Option (List UInt8)) :
    (start original : State Digest).Sound setting where
  complete _ _ := .inl rfl
  fresh place identity named := by
    cases place with
    | destination =>
      cases original with
      | none => cases named
      | some bytes =>
        cases named
        exact Nat.one_pos
    | staging => cases named
    | safetyStaging => cases named
    | safety => cases named
  apart identity named := by
    cases named with
    | inl safety => cases safety
    | inr staged => cases staged
  phase := ⟨rfl, fun _ _ => by simp [start]⟩

/-- Under every interleaving: what the destination names is a whole database, and once there is
one there always is; a restore that succeeds over a database has displaced the file of its
snapshot, whose bytes are in the safety backup; and of a restore that fails, every displaced file
is in the staging directory or was put back. -/
theorem restore_keeps_databases [DecidableEq Digest] (setting : Setting Digest)
    (injective : Function.Injective setting.digest) (original : Option (List UInt8))
    (actions : List State.Action) (s : State Digest) (ran : run setting original actions = some s) :
    (∀ identity, s.disk.names .destination = some identity →
      (s.disk.files identity).Complete setting) ∧
    (∀ more t, Steps.run (State.step setting) s more = some t → s.Present → t.Present) ∧
    (s.phase = .returned .ok → s.databaseExisted = true → s.Restored setting) ∧
    ∀ operation cleanupFailed, s.phase = .returned (.error operation cleanupFailed) →
      s.Recovered := by
  have sound : s.Sound setting :=
    Steps.run_keeps (fun _ _ _ sound stepped => sound.step injective stepped)
      (sound_start setting original) ran
  refine ⟨sound.complete, ?_, ?_, ?_⟩
  · intro more t later present
    exact Steps.run_keeps (fun _ _ _ present stepped => State.present_step stepped present) present
      later
  · intro returned
    have holds := sound.phase
    rw [returned] at holds
    exact holds
  · intro operation cleanupFailed returned
    have holds := sound.phase
    rw [returned] at holds
    exact holds

def exampleSetting : Setting (List UInt8) where
  digest := id
  checkpoint := id
  backup := [9, 9]

def untilExchange : List State.Action := List.replicate 13 (.restore true)

theorem restore_keeps_databases_replaced :
    ∃ s, run exampleSetting (some [1]) (untilExchange ++ List.replicate 4 (.restore true)) = some s ∧
      s.phase = .returned .ok ∧ s.displaced = [(0, [1])] ∧
      s.disk.read .destination = some [9, 9] ∧ s.disk.read .safety = some [1] ∧
      s.Restored exampleSetting := by
  have phases : (run exampleSetting (some [1])
      (untilExchange ++ List.replicate 4 (.restore true))).map (fun s => (s.phase, s.databaseExisted)) =
      some (.returned .ok, true) := by
    decide
  have contents : (run exampleSetting (some [1])
      (untilExchange ++ List.replicate 4 (.restore true))).map (fun s => (s.displaced,
        s.disk.read .destination, s.disk.read .safety)) = some ([(0, [1])], some [9, 9], some [1]) := by
    decide
  obtain ⟨s, ran, same⟩ := Option.map_eq_some_iff.1 phases
  rw [ran, Option.map_some, Option.some.injEq] at contents
  simp only [Prod.mk.injEq] at same contents
  obtain ⟨phase, existed⟩ := same
  obtain ⟨displaced, destination, safety⟩ := contents
  have kept := restore_keeps_databases exampleSetting Function.injective_id (some [1]) _ s ran
  exact ⟨s, ran, phase, displaced, destination, safety, kept.2.2.1 phase existed⟩

/-- The other process replaces the destination before the exchange, and once more after the
rollback: the file that was displaced is then neither at the destination nor staged. -/
def replacedTwice : List State.Action :=
  untilExchange ++ [.interfere (.replace [2])] ++ List.replicate 4 (.restore true)
    ++ [.interfere (.replace [3]), .restore true]

theorem displaced_file_replaced :
    ¬∀ (setting : Setting (List UInt8)), Function.Injective setting.digest →
      ∀ original actions s, run setting original actions = some s →
        ∀ operation cleanupFailed, s.phase = .returned (.error operation cleanupFailed) →
          ∀ entry ∈ s.displaced, s.disk.names .destination = some entry.1 ∨
            s.disk.names .staging = some entry.1 := by
  intro claim
  have values : (run exampleSetting (some [1]) replacedTwice).map (fun s => (s.phase, s.displaced,
      s.disk.names .destination, s.disk.names .staging)) =
      some (.returned (.error .rollbackMismatch false), [(3, [2]), (2, [9, 9])], some 4, some 2) := by
    decide
  obtain ⟨s, ran, same⟩ := Option.map_eq_some_iff.1 values
  simp only [Prod.mk.injEq] at same
  obtain ⟨phase, displaced, destination, staging⟩ := same
  have found := claim exampleSetting Function.injective_id _ _ s ran _ _ phase (3, [2])
    (by rw [displaced]; exact List.mem_cons_self ..)
  rw [destination, staging] at found
  exact absurd found (by decide)

end CodeSystemGraph.StoreRestore
