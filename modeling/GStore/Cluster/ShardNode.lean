import GStore.Cluster.Raft
import GStore.Store.TripleSource

/-! # Shard nodes and their clients

`cluster.rs` and `rpc.rs`: the requests a shard node answers from its store, and
the two kinds of shard a coordinator reads and writes, one in the same process and
one reached over the network. `DefaultHasher` is a parameter: nothing depends on
which hash it computes. -/

namespace GStore.Cluster

open Store

inductive Request where
  | «exists» (sub pred obj : UInt32)
  | poByS (sub : UInt32)
  | oBySp (sub pred : UInt32)
  | pBySo (sub obj : UInt32)
  | psByO (obj : UInt32)
  | sByPo (pred obj : UInt32)
  | soByP (pred : UInt32)
  | subsByP (pred : UInt32)
  | objsByP (pred : UInt32)
  | subjectKeys
  | objectKeys
  | predicates
  | tripleCount
  | predCard (pred : UInt32)
  | insert (sub pred obj : UInt32)
  | requestVote (term : Nat) (candidateId : NodeId) (lastLogIndex lastLogTerm : Nat)
  | appendEntries (term : Nat) (leaderId : NodeId) (prevLogIndex prevLogTerm : Nat)
      (leaderCommit : Nat) (entries : List LogEntry)
  | installSnapshot (term : Nat) (leaderId : NodeId)
      (lastIncludedIndex lastIncludedTerm : Nat) (triples : List IdTriple)
  | clientWrite (op : LogOp)
  | clusterStatus
  | getConfig
  | scanShard (shard numShards : UInt32)
  | purgeShard (shard numShards : UInt32)
deriving DecidableEq

inductive Response where
  | bool (value : Bool)
  | count (value : Nat)
  | ids (values : List UInt32)
  | pairs (values : List (UInt32 × UInt32))
  | error (message : String)
  | vote (term : Nat) (granted : Bool)
  | appendAck (term : Nat) (success : Bool) (matchIndex : Nat)
  | snapshotAck (term : Nat)
  | writeAck (ok : Bool) (leaderHint : Int) (index : Nat)
  | status (term : Nat) (role : Nat) (leaderHint : Int) (commitIndex lastLogIndex : Nat)
  | triples (values : List IdTriple)
  | config (epoch : Nat) (numShards : UInt32) (members : List (NodeId × SocketAddr))
      (assignment : List NodeId)
deriving DecidableEq

/-- The `io::Error`s of the shard clients. -/
inductive IoError where
  /-- The connection failed. -/
  | transport
  | other (message : String)
  | invalidData (message : String)
  | notFound (message : String)
deriving DecidableEq, Repr

namespace Response

def intoBool : Response → Except IoError Bool
  | .bool value => .ok value
  | .error message => .error (.other s!"remote shard error: {message}")
  | _ => .error (.invalidData "expected a Bool response")

def intoCount : Response → Except IoError Nat
  | .count value => .ok value
  | .error message => .error (.other s!"remote shard error: {message}")
  | _ => .error (.invalidData "expected a Count response")

def intoIds : Response → Except IoError (List UInt32)
  | .ids values => .ok values
  | .error message => .error (.other s!"remote shard error: {message}")
  | _ => .error (.invalidData "expected an Ids response")

def intoPairs : Response → Except IoError (List (UInt32 × UInt32))
  | .pairs values => .ok values
  | .error message => .error (.other s!"remote shard error: {message}")
  | _ => .error (.invalidData "expected a Pairs response")

def intoTriples : Response → Except IoError (List IdTriple)
  | .triples values => .ok values
  | .error message => .error (.other s!"remote shard error: {message}")
  | _ => .error (.invalidData "expected a Triples response")

end Response

/-! ## The server -/

section Server

variable (hash : UInt32 → UInt64)

/-- The shard a subject hashes to. -/
def shardOf (sub : UInt32) (numShards : Nat) : Nat := (hash sub).toNat % numShards

/-- Every triple of one bucket; no bucket exists when there are none. -/
def scanBucket (store : TripleStore) (shard numShards : UInt32) : List IdTriple :=
  if numShards = 0 then []
  else store.iterAll.filter fun triple =>
    decide (shardOf hash triple.sub numShards.toNat = shard.toNat)

/-- Remove every triple of one bucket; the number removed. -/
def purgeBucket (store : TripleStore) (shard numShards : UInt32) : TripleStore × Nat :=
  (scanBucket hash store shard numShards).foldl
    (fun state triple =>
      let (store, existed) := state.1.remove triple
      (store, if existed then state.2 + 1 else state.2))
    (store, 0)

/-- Execute one request against the local store. -/
def dispatch (store : TripleStore) : Request → Response × TripleStore
  | .exists sub pred obj => (.bool (store.exists sub pred obj), store)
  | .poByS sub => (.pairs (store.poByS sub), store)
  | .oBySp sub pred => (.ids (store.oBySp sub pred), store)
  | .pBySo sub obj => (.ids (store.pBySo sub obj), store)
  | .psByO obj => (.pairs (store.psByO obj), store)
  | .sByPo pred obj => (.ids (store.sByPo pred obj), store)
  | .soByP pred => (.pairs (store.soByP pred), store)
  | .subsByP pred => (.ids (store.subsByP pred), store)
  | .objsByP pred => (.ids (store.objsByP pred), store)
  | .subjectKeys => (.ids store.subjectKeys, store)
  | .objectKeys => (.ids store.objectKeys, store)
  | .predicates => (.ids store.predicates, store)
  | .tripleCount => (.count store.tripleCount, store)
  | .predCard pred => (.count (store.predCard pred), store)
  | .insert sub pred obj =>
    let (store, inserted) := store.insert ⟨sub, pred, obj⟩
    (.bool inserted, store)
  | .scanShard shard numShards => (.triples (scanBucket hash store shard numShards), store)
  | .purgeShard shard numShards =>
    let (store, removed) := purgeBucket hash store shard numShards
    (.count removed, store)
  | .requestVote .. | .appendEntries .. | .installSnapshot .. | .clientWrite _ | .clusterStatus
  | .getConfig =>
    (.error "cluster-control RPC sent to a non-replicated shard node", store)

end Server

/-! ## The client -/

/-- How a call to a remote shard goes. The client tries twice, so the node may
execute a request twice, also when no answer comes back in the end. -/
inductive Delivery where
  | answered
  /-- The first answer was lost. -/
  | answeredAgain
  | lost (executions : Fin 3)
deriving DecidableEq, Repr

def Delivery.isAnswered : Delivery → Bool
  | .lost _ => false
  | _ => true

/-- How often the node executes the request. -/
def Delivery.executions : Delivery → Nat
  | .answered => 1
  | .answeredAgain => 2
  | .lost executions => executions

/-- `RemoteShard::call`: the answer, and the node's store afterwards. -/
def call (hash : UInt32 → UInt64) (delivery : Delivery) (store : TripleStore) (request : Request) :
    Except IoError Response × TripleStore :=
  let execute := fun store => (dispatch hash store request).2
  match delivery with
  | .answered => (.ok (dispatch hash store request).1, execute store)
  | .answeredAgain => (.ok (dispatch hash (execute store) request).1, execute (execute store))
  | .lost executions => (.error .transport, execute^[executions] store)

/-- An in-process shard, or one served by a remote node: then the store is the
node's. No two shards of a coordinator reach the same node. -/
inductive Shard where
  | «local» (store : TripleStore)
  | remote (store : TripleStore)

/-- How each read request of a scatter-gather goes. -/
abbrev Network := Request → Delivery

namespace Shard

def store : Shard → TripleStore
  | .local store => store
  | .remote store => store

def withStore : Shard → TripleStore → Shard
  | .local _, store => .local store
  | .remote _, store => .remote store

def isRemote : Shard → Bool
  | .local _ => false
  | .remote _ => true

section Calls

variable (hash : UInt32 → UInt64)

/-- A read: a local shard answers at once, and a failed call to a remote one is
answered by `fallback`. -/
def read {α : Type} (network : Network) (shard : Shard) (answer : TripleStore → α)
    (request : Request) (into : Response → Except IoError α) (fallback : α) : α :=
  match shard with
  | .local store => answer store
  | .remote store =>
    match (call hash (network request) store request).1.bind into with
    | .ok value => value
    | .error _ => fallback

/-- A write on the shard, with its delivery if it is remote. -/
def write {α : Type} (delivery : Delivery) (shard : Shard) (act : TripleStore → TripleStore × α)
    (request : Request) (into : Response → Except IoError α) : Except IoError α × Shard :=
  match shard with
  | .local store =>
    let (store, value) := act store
    (.ok value, .local store)
  | .remote store =>
    let (answer, store) := call hash delivery store request
    (answer.bind into, .remote store)

def insert (delivery : Delivery) (shard : Shard) (triple : IdTriple) : Except IoError Bool × Shard :=
  shard.write hash delivery (fun store => store.insert triple)
    (.insert triple.sub triple.pred triple.obj) Response.intoBool

def scanShard (delivery : Delivery) (shard : Shard) (bucket numShards : UInt32) :
    Except IoError (List IdTriple) :=
  (shard.write hash delivery (fun store => (store, scanBucket hash store bucket numShards))
    (.scanShard bucket numShards) Response.intoTriples).1

def purgeShard (delivery : Delivery) (shard : Shard) (bucket numShards : UInt32) :
    Except IoError Nat × Shard :=
  shard.write hash delivery (fun store => purgeBucket hash store bucket numShards)
    (.purgeShard bucket numShards) Response.intoCount

end Calls

end Shard

end GStore.Cluster
