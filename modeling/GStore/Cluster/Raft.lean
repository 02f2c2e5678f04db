import GStore.Store.TripleStore

/-! # The Raft state machine

`cluster.rs`: the pure replication state machine of one node. Every input is a
method call that returns the new state and the messages to send. Terms, log
indexes and logical ticks are `u64` in the source and natural numbers here: they
only ever grow by one at a time. -/

namespace GStore.Cluster

/-- A node's stable identity within a cluster. -/
abbrev NodeId := UInt64

inductive IpAddr where
  | v4 (octets : BitVec 32)
  | v6 (octets : BitVec 128)
deriving DecidableEq, Repr

structure SocketAddr where
  ip : IpAddr
  port : UInt16
deriving DecidableEq, Repr

/-- A single replicated log command. -/
inductive LogOp where
  | insert (triple : IdTriple)
  | delete (triple : IdTriple)
  | addNode (id : NodeId) (addr : SocketAddr)
  | removeNode (id : NodeId)
  | noop
deriving DecidableEq, Repr

structure LogEntry where
  term : Nat
  op : LogOp
deriving DecidableEq, Repr

inductive Role where
  | follower
  | candidate
  | leader
deriving DecidableEq, Repr

/-- A request message, with its sender inside (`candidateId` or `leaderId`). -/
inductive RaftMsg where
  | requestVote (term : Nat) (candidateId : NodeId) (lastLogIndex lastLogTerm : Nat)
  | appendEntries (term : Nat) (leaderId : NodeId) (prevLogIndex prevLogTerm : Nat)
      (leaderCommit : Nat) (entries : List LogEntry)
  | installSnapshot (term : Nat) (leaderId : NodeId)
      (lastIncludedIndex lastIncludedTerm : Nat) (triples : List IdTriple)
deriving DecidableEq, Repr

/-- A request together with the peer it is addressed to. -/
structure Outgoing where
  «to» : NodeId
  msg : RaftMsg
deriving DecidableEq, Repr

inductive RaftReply where
  | vote (term : Nat) (granted : Bool)
  | append (term : Nat) (success : Bool) (matchIndex : Nat)
  | snapshot (term : Nat)
deriving DecidableEq, Repr

/-- What the owner of the state machine does to its store. -/
inductive StoreAction where
  | apply (op : LogOp)
  | reset (triples : List IdTriple)
deriving DecidableEq, Repr

structure RaftConfig where
  electionTimeoutMin : Nat
  electionTimeoutMax : Nat
  heartbeatTimeout : Nat

structure RaftState where
  id : NodeId
  peers : List NodeId
  role : Role
  currentTerm : Nat
  votedFor : Option NodeId
  leaderId : Option NodeId
  /-- Entries with indexes `baseIndex + 1 ..= baseIndex + log.length`. -/
  log : List LogEntry
  baseIndex : Nat
  baseTerm : Nat
  snapshot : List IdTriple
  commitIndex : Nat
  lastApplied : Nat
  votesGranted : Finset NodeId
  nextIndex : NodeId → Option Nat
  matchIndex : NodeId → Option Nat
  electionElapsed : Nat
  heartbeatElapsed : Nat
  electionTimeout : Nat
  cfgMin : Nat
  cfgMax : Nat
  cfgHeartbeat : Nat
  rng : UInt64
  pendingReset : Option (List IdTriple)

namespace RaftState

/-! ## Index helpers -/

def clusterSize (state : RaftState) : Nat := state.peers.length + 1

def majority (state : RaftState) : Nat := state.clusterSize / 2 + 1

def lastLogIndex (state : RaftState) : Nat := state.baseIndex + state.log.length

def lastLogTerm (state : RaftState) : Nat :=
  (state.log.getLast?.map LogEntry.term).getD state.baseTerm

def termAt (state : RaftState) (index : Nat) : Nat :=
  if index = 0 then 0
  else if index ≤ state.baseIndex then state.baseTerm
  else ((state.log[index - state.baseIndex - 1]?).map LogEntry.term).getD state.baseTerm

def opAt (state : RaftState) (index : Nat) : Option LogOp :=
  if index ≤ state.baseIndex then none
  else (state.log[index - state.baseIndex - 1]?).map LogEntry.op

/-! ## Timers -/

/-- One step of the xorshift generator. -/
def nextRand (state : RaftState) : RaftState × UInt64 :=
  let x := state.rng
  let x := x ^^^ (x <<< 13)
  let x := x ^^^ (x >>> 7)
  let x := x ^^^ (x <<< 17)
  ({ state with rng := x }, x)

def resetElectionTimeout (state : RaftState) : RaftState :=
  let span := state.cfgMax - state.cfgMin + 1
  let (state, random) := state.nextRand
  { state with
    electionTimeout := state.cfgMin + random.toNat % span
    electionElapsed := 0 }

/-- A fresh node `id` whose cluster peers are `peers`. -/
def new (id : NodeId) (peers : List NodeId) (cfg : RaftConfig) : RaftState :=
  let seed := (id * 0x9E3779B97F4A7C15) ^^^ 0xD1B54A32D192ED03
  let seed := if seed = 0 then 0x123456789ABCDEF1 else seed
  resetElectionTimeout
    { id, peers
      role := .follower
      currentTerm := 0
      votedFor := none
      leaderId := none
      log := []
      baseIndex := 0
      baseTerm := 0
      snapshot := []
      commitIndex := 0
      lastApplied := 0
      votesGranted := ∅
      nextIndex := fun _ => none
      matchIndex := fun _ => none
      electionElapsed := 0
      heartbeatElapsed := 0
      electionTimeout := cfg.electionTimeoutMin
      cfgMin := cfg.electionTimeoutMin
      cfgMax := max cfg.electionTimeoutMax cfg.electionTimeoutMin
      cfgHeartbeat := max cfg.heartbeatTimeout 1
      rng := seed
      pendingReset := none }

/-- Newer term wins: become a follower of it with a free vote. -/
def observeTerm (state : RaftState) (term : Nat) : RaftState :=
  if term > state.currentTerm then
    { state with
      currentTerm := term
      votedFor := none
      role := .follower
      leaderId := none
      votesGranted := ∅ }
  else
    state

/-! ## Replication -/

def replicateTo (state : RaftState) (peer : NodeId) : Option Outgoing :=
  if state.role ≠ .leader then
    none
  else
    let next := (state.nextIndex peer).getD (state.lastLogIndex + 1)
    if next ≤ state.baseIndex then
      some
        { «to» := peer
          msg := .installSnapshot state.currentTerm state.id state.baseIndex
            state.baseTerm state.snapshot }
    else
      let prevLogIndex := next - 1
      some
        { «to» := peer
          msg := .appendEntries state.currentTerm state.id prevLogIndex
            (state.termAt prevLogIndex) state.commitIndex
            (state.log.drop (next - state.baseIndex - 1)) }

def replicate (state : RaftState) : RaftState × List Outgoing :=
  ({ state with heartbeatElapsed := 0 }, state.peers.filterMap state.replicateTo)

/-- Leader-only: emit to every peer right now. -/
def replicateNow (state : RaftState) : RaftState × List Outgoing :=
  if state.role = .leader then state.replicate else (state, [])

/-! ## Elections -/

def becomeLeader (state : RaftState) : RaftState × List Outgoing :=
  let state := { state with role := .leader, leaderId := some state.id }
  -- A current-term entry makes an uncommitted tail committable again.
  let state :=
    if state.lastLogIndex > state.commitIndex then
      { state with log := state.log ++ [⟨state.currentTerm, .noop⟩] }
    else
      state
  let next := state.lastLogIndex + 1
  replicate
    { state with
      nextIndex := fun peer => if peer ∈ state.peers then some next else none
      matchIndex := fun peer => if peer ∈ state.peers then some 0 else none
      heartbeatElapsed := 0 }

def startElection (state : RaftState) : RaftState × List Outgoing :=
  let state := resetElectionTimeout
    { state with
      currentTerm := state.currentTerm + 1
      role := .candidate
      votedFor := some state.id
      votesGranted := {state.id}
      leaderId := none }
  if state.votesGranted.card ≥ state.majority then
    state.becomeLeader
  else
    (state, state.peers.map fun peer =>
      { «to» := peer
        msg := .requestVote state.currentTerm state.id state.lastLogIndex
          state.lastLogTerm })

def tick (state : RaftState) : RaftState × List Outgoing :=
  match state.role with
  | .leader =>
    let state := { state with heartbeatElapsed := state.heartbeatElapsed + 1 }
    if state.heartbeatElapsed ≥ state.cfgHeartbeat then state.replicate else (state, [])
  | .follower | .candidate =>
    let state := { state with electionElapsed := state.electionElapsed + 1 }
    if state.electionElapsed ≥ state.electionTimeout then state.startElection
    else (state, [])

/-! ## Requests -/

def handleRequestVote (state : RaftState) (term : Nat) (candidateId : NodeId)
    (lastLogIndex lastLogTerm : Nat) : RaftState × RaftReply :=
  if term < state.currentTerm then
    (state, .vote state.currentTerm false)
  else
    let state := state.observeTerm term
    let logOk := lastLogTerm > state.lastLogTerm ∨
      (lastLogTerm = state.lastLogTerm ∧ lastLogIndex ≥ state.lastLogIndex)
    let canVote := state.votedFor = none ∨ state.votedFor = some candidateId
    if canVote ∧ logOk then
      let state := resetElectionTimeout
        { state with votedFor := some candidateId, role := .follower }
      (state, .vote state.currentTerm true)
    else
      (state, .vote state.currentTerm false)

/-- Store one entry at its index, overwriting a conflicting suffix. -/
def appendEntry (state : RaftState) (index : Nat) (entry : LogEntry) : RaftState :=
  if index ≤ state.baseIndex then
    state
  else if index ≤ state.lastLogIndex then
    if state.termAt index ≠ entry.term then
      { state with log := state.log.take (index - state.baseIndex - 1) ++ [entry] }
    else
      state
  else
    { state with log := state.log ++ [entry] }

/-- The loop over the entries of one message, the first at `index`. -/
def appendFrom : RaftState → Nat → List LogEntry → RaftState
  | state, _, [] => state
  | state, index, entry :: rest => appendFrom (state.appendEntry index entry) (index + 1) rest

def handleAppendEntries (state : RaftState) (term : Nat) (leaderId : NodeId)
    (prevLogIndex prevLogTerm leaderCommit : Nat) (entries : List LogEntry) :
    RaftState × RaftReply :=
  if term < state.currentTerm then
    (state, .append state.currentTerm false 0)
  else
    let state := resetElectionTimeout
      { state.observeTerm term with role := .follower, leaderId := some leaderId }
    if prevLogIndex > state.lastLogIndex then
      (state, .append state.currentTerm false state.lastLogIndex)
    else if prevLogIndex > state.baseIndex ∧ state.termAt prevLogIndex ≠ prevLogTerm then
      (state, .append state.currentTerm false (prevLogIndex - 1))
    else
      let state := state.appendFrom (prevLogIndex + 1) entries
      let state :=
        if leaderCommit > state.commitIndex then
          { state with commitIndex := min leaderCommit state.lastLogIndex }
        else
          state
      (state, .append state.currentTerm true (prevLogIndex + entries.length))

def handleInstallSnapshot (state : RaftState) (term : Nat) (leaderId : NodeId)
    (lastIncludedIndex lastIncludedTerm : Nat) (triples : List IdTriple) :
    RaftState × RaftReply :=
  if term < state.currentTerm then
    (state, .snapshot state.currentTerm)
  else
    let state := resetElectionTimeout
      { state.observeTerm term with role := .follower, leaderId := some leaderId }
    -- Only a snapshot past what is already committed is installed.
    let state :=
      if lastIncludedIndex > state.commitIndex then
        { state with
          baseIndex := lastIncludedIndex
          baseTerm := lastIncludedTerm
          log := []
          snapshot := triples
          pendingReset := some triples
          commitIndex := lastIncludedIndex
          lastApplied := lastIncludedIndex }
      else
        state
    (state, .snapshot state.currentTerm)

def handle (state : RaftState) : RaftMsg → RaftState × RaftReply
  | .requestVote term candidateId lastLogIndex lastLogTerm =>
    state.handleRequestVote term candidateId lastLogIndex lastLogTerm
  | .appendEntries term leaderId prevLogIndex prevLogTerm leaderCommit entries =>
    state.handleAppendEntries term leaderId prevLogIndex prevLogTerm leaderCommit entries
  | .installSnapshot term leaderId lastIncludedIndex lastIncludedTerm triples =>
    state.handleInstallSnapshot term leaderId lastIncludedIndex lastIncludedTerm triples

/-! ## Replies -/

/-- How many nodes hold the entry at `index`, this one included. -/
def replicationCount (state : RaftState) (index : Nat) : Nat :=
  1 + state.peers.countP fun peer => decide ((state.matchIndex peer).getD 0 ≥ index)

/-- The downward search of `advance_commit` from `index`. -/
def commitSearch (state : RaftState) : Nat → Nat
  | 0 => state.commitIndex
  | index + 1 =>
    if index + 1 > state.commitIndex then
      if state.termAt (index + 1) = state.currentTerm ∧
          state.replicationCount (index + 1) ≥ state.majority then
        index + 1
      else
        state.commitSearch index
    else
      state.commitIndex

def advanceCommit (state : RaftState) : RaftState × Bool :=
  let commitIndex := state.commitSearch state.lastLogIndex
  ({ state with commitIndex }, decide (commitIndex > state.commitIndex))

def handleVoteReply (state : RaftState) («from» : NodeId) (term : Nat) (granted : Bool) :
    RaftState × List Outgoing :=
  if term > state.currentTerm then
    (state.observeTerm term, [])
  else if state.role ≠ .candidate ∨ term < state.currentTerm then
    (state, [])
  else if granted then
    let state := { state with votesGranted := insert «from» state.votesGranted }
    if state.votesGranted.card ≥ state.majority then state.becomeLeader else (state, [])
  else
    (state, [])

/-- Record what a peer has acknowledged. -/
def acknowledge (state : RaftState) («from» : NodeId) (matchIndex : Nat) : RaftState :=
  { state with
    matchIndex := Function.update state.matchIndex «from» (some matchIndex)
    nextIndex := Function.update state.nextIndex «from» (some (matchIndex + 1)) }

/-- Log mismatch: back `next_index` up, never below the first entry. -/
def backUp (state : RaftState) («from» : NodeId) (matchIndex : Nat) : RaftState :=
  let current := (state.nextIndex «from»).getD 1
  let next := max (min (matchIndex + 1) (current - 1)) 1
  { state with nextIndex := Function.update state.nextIndex «from» (some next) }

def handleAppendReply (state : RaftState) («from» : NodeId) (term : Nat) (success : Bool)
    (matchIndex : Nat) : RaftState × List Outgoing :=
  if term > state.currentTerm then
    (state.observeTerm term, [])
  else if state.role ≠ .leader ∨ term < state.currentTerm then
    (state, [])
  else if success then
    let (state, advanced) := (state.acknowledge «from» matchIndex).advanceCommit
    let next := (state.nextIndex «from»).getD 0
    if next ≤ state.lastLogIndex then
      (state, (state.replicateTo «from»).toList)
    else if advanced then
      state.replicate
    else
      (state, [])
  else
    let state := state.backUp «from» matchIndex
    (state, (state.replicateTo «from»).toList)

def handleSnapshotReply (state : RaftState) («from» : NodeId) (term : Nat) :
    RaftState × List Outgoing :=
  if term > state.currentTerm then
    (state.observeTerm term, [])
  else if state.role ≠ .leader then
    (state, [])
  else
    let state := state.acknowledge «from» state.baseIndex
    (state, (state.replicateTo «from»).toList)

def handleReply (state : RaftState) («from» : NodeId) : RaftReply → RaftState × List Outgoing
  | .vote term granted => state.handleVoteReply «from» term granted
  | .append term success matchIndex => state.handleAppendReply «from» term success matchIndex
  | .snapshot term => state.handleSnapshotReply «from» term

/-! ## The owner's calls -/

/-- Append a client mutation to the leader's log; its index, if this node leads. -/
def propose (state : RaftState) (op : LogOp) : RaftState × Option Nat :=
  if state.role ≠ .leader then
    (state, none)
  else
    let state := { state with log := state.log ++ [⟨state.currentTerm, op⟩] }
    let index := state.lastLogIndex
    let state := if state.peers = [] then state.advanceCommit.1 else state
    (state, some index)

/-- The committed mutations not yet applied, each with its log index. -/
def unapplied (state : RaftState) : List (Nat × LogOp) :=
  (List.range' (state.lastApplied + 1) (state.commitIndex - state.lastApplied)).filterMap
    fun index => (state.opAt index).map (index, ·)

def drainApply (state : RaftState) : RaftState × List StoreAction :=
  ({ state with
      pendingReset := none
      lastApplied := max state.lastApplied state.commitIndex },
    (state.pendingReset.map StoreAction.reset).toList ++
      state.unapplied.map fun entry => .apply entry.2)

/-- Fold the committed entries up to `upToIndex` into a snapshot. -/
def compact (state : RaftState) (upToIndex : Nat) (triples : List IdTriple) : RaftState :=
  if upToIndex ≤ state.baseIndex ∨ upToIndex > state.commitIndex then
    state
  else
    { state with
      log := state.log.drop (min (upToIndex - state.baseIndex) state.log.length)
      baseIndex := upToIndex
      baseTerm := state.termAt upToIndex
      snapshot := triples }

def noteRevived (state : RaftState) : RaftState :=
  resetElectionTimeout
    (if state.role = .leader then { state with role := .follower } else state)

end RaftState

end GStore.Cluster
