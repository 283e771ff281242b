import CodeSystemGraph.Ieee

/-! The domain records of the federated graph. Identifiers are the canonical
strings of the source's newtypes. Fields that no modelled function reads are
left out. -/

namespace CodeSystemGraph.Model
open Ieee

abbrev RepoId := String
abbrev CheckoutId := String
abbrev WorkspaceId := String
abbrev NodeId := String
abbrev EdgeId := String
abbrev EvidenceId := String
abbrev CommunityId := String
abbrev Bytes := List UInt8

inductive NativePathEncoding
  | unixBytes | windowsWide | utf8
deriving DecidableEq

structure NativePath where
  encoding : NativePathEncoding
  bytes : Bytes
  display : String
deriving DecidableEq

inductive NodeKind
  | repository | service | package | artifact | symbolRef | testCase | httpOperation
  | graphqlOperation | rpcMethod | eventChannel | eventSchema | database | databaseTable
  | databaseColumn | configKey | deployment | document | adr | owner | changeSet
  | pullRequest | community
deriving DecidableEq

inductive EdgeKind
  | contains | provides | consumes | callsRemote | publishes | subscribes | deliversTo
  | dependsOnPackage | dependsOnRepository | readsTable | writesTable | deploys | configures
  | documents | ownedBy | implementedBy | validates | changedIn | affects | precedes | reverts
  | compatibleWith | incompatibleWith | memberOf | manualLink
deriving DecidableEq

inductive EpistemicStatus
  | confirmed | inferred | ambiguous | stale | incomplete
deriving DecidableEq

inductive Provenance
  | declared | extracted | inferred | manual | runtime | codeGraph
deriving DecidableEq

inductive RepoFreshnessState
  | fresh | workingTreeChanged | commitsBehind | configChanged | extractorChanged
  | codegraphPending | partialCoverage | corrupt | unknown | unavailable
deriving DecidableEq

structure Node where
  id : NodeId
  kind : NodeKind
  repoId : Option RepoId
  stableKey : String
  label : String
deriving DecidableEq

structure Edge where
  id : EdgeId
  source : NodeId
  target : NodeId
  kind : EdgeKind
  confidence : F32
  status : EpistemicStatus
  evidence : List EvidenceId
deriving DecidableEq

structure Evidence where
  id : EvidenceId
  repoId : Option RepoId
  filePath : Option String
  startLine : Option UInt32
  endLine : Option UInt32
  extractor : String
  extractorVersion : String
  provenance : Provenance
  confidence : F32
  observedAtCommit : Option String
  contentHash : Option String
  note : Option String
deriving DecidableEq

structure RepoFreshness where
  repoId : RepoId
  checkoutId : CheckoutId
  headCommit : Option String
  manifestHash : String
  state : RepoFreshnessState
  reason : Option String
deriving DecidableEq

/-- The check every confidence passes before it is used: `is_finite` and
`(0.0..=1.0).contains`. -/
def unitInterval {f : Format} (x : Binary f) : Bool :=
  x.isFinite && (Binary.zero.le x && x.le (.ofNat 1))

end CodeSystemGraph.Model
