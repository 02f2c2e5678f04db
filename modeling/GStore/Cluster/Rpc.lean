import GStore.Cluster.ShardNode
import GStore.Foundation.Codec
import GStore.Model.Utf8

/-! # The wire codec

`rpc.rs`: the frames, and the byte encoding of requests and responses. A `u64` is a natural number
here and an `i64` an integer; `OnWire` says that they, and the lengths, are in range. How the
standard library writes and reads a socket address is a parameter. -/

namespace GStore.Cluster

open Decoder

/-- `SocketAddr::to_string` and `str::parse::<SocketAddr>`. -/
structure AddrText where
  toText : SocketAddr → Text
  parse : Text → Option SocketAddr

namespace Rpc

def maxFrame : Nat := 256 * 1024 * 1024

/-! ## Framing -/

inductive FrameError where
  | invalidInput
  | invalidData
  | unexpectedEof
deriving DecidableEq

/-- `write_message`, onto what the stream holds already. -/
def writeMessage (stream payload : Bytes) : Except FrameError Bytes :=
  if maxFrame < payload.length then .error .invalidInput
  else .ok (stream ++ be32 (UInt32.ofNat payload.length) ++ payload)

/-- `read_exact`: the first bytes of a stream, and the rest. -/
def readExact (count : Nat) (stream : Bytes) : Except FrameError (Bytes × Bytes) :=
  if stream.length < count then .error .unexpectedEof
  else .ok (stream.take count, stream.drop count)

def readMessage (stream : Bytes) : Except FrameError (Bytes × Bytes) := do
  let (length, stream) ← readExact 4 stream
  let count := (ofBe32 length).toNat
  if maxFrame < count then .error .invalidData else readExact count stream

def writeMessages (payloads : List Bytes) : Except FrameError Bytes :=
  payloads.foldlM writeMessage []

def readMessages : Nat → Bytes → Except FrameError (List Bytes × Bytes)
  | 0, stream => .ok ([], stream)
  | count + 1, stream => do
    let (first, stream) ← readMessage stream
    let (rest, stream) ← readMessages count stream
    return (first :: rest, stream)

/-! ## Writing -/

def putU32 (value : UInt32) : Bytes := be32 value

def putU64 (value : Nat) : Bytes := beBytes value 8

/-- `len() as u32`. -/
def putCount (count : Nat) : Bytes := putU32 (UInt32.ofNat count)

def putIds (ids : List UInt32) : Bytes := putCount ids.length ++ ids.flatMap putU32

def putPair (pair : UInt32 × UInt32) : Bytes := putU32 pair.1 ++ putU32 pair.2

def putPairs (pairs : List (UInt32 × UInt32)) : Bytes :=
  putCount pairs.length ++ pairs.flatMap putPair

def putStr (text : Text) : Bytes := putCount (utf8 text).length ++ utf8 text

/-- The two's complement of the integer. -/
def putI64 (value : Int) : Bytes := putU64 (value % 2 ^ 64).toNat

def putNode (id : NodeId) : Bytes := putU64 id.toNat

def putTriple (triple : IdTriple) : Bytes :=
  putU32 triple.sub ++ putU32 triple.pred ++ putU32 triple.obj

def putTriples (triples : List IdTriple) : Bytes :=
  putCount triples.length ++ triples.flatMap putTriple

def putBool (flag : Bool) : Bytes := [if flag then 1 else 0]

section Writers

variable (format : AddrText)

def putOp : LogOp → Bytes
  | .insert triple => [1] ++ putTriple triple
  | .delete triple => [2] ++ putTriple triple
  | .addNode id addr => [3] ++ putNode id ++ putStr (format.toText addr)
  | .removeNode id => [4] ++ putNode id
  | .noop => [5]

def putEntry (entry : LogEntry) : Bytes := putU64 entry.term ++ putOp format entry.op

def putEntries (entries : List LogEntry) : Bytes :=
  putCount entries.length ++ entries.flatMap (putEntry format)

def putMember (node : NodeId × SocketAddr) : Bytes :=
  putNode node.1 ++ putStr (format.toText node.2)

end Writers

/-! ## Reading -/

abbrev Reader (α : Type) := Decoder IoError α

def bad (message : String) : IoError := .invalidData message

def truncated : IoError := bad "rpc message truncated"

def u8 : Reader UInt8 := do
  let bytes ← take truncated 1
  index bytes 0

def u32 : Reader UInt32 := return UInt32.ofNat (← bigEndian truncated 4)

def u64 : Reader Nat := bigEndian truncated 8

def node : Reader NodeId := return UInt64.ofNat (← u64)

/-- `u64 as i64`. -/
def i64 : Reader Int := return Int.bmod (← u64) (2 ^ 64)

def flag : Reader Bool := return (← u8) != 0

/-- A `u32` count and that many values. -/
def counted {α : Type} (read : Reader α) : Reader (List α) := do
  let count ← u32
  times read count.toNat

def ids : Reader (List UInt32) := counted u32

def pairs : Reader (List (UInt32 × UInt32)) := counted do return (← u32, ← u32)

def string : Reader Text := do
  let count ← u32
  let bytes ← take truncated count.toNat
  match fromUtf8 bytes with
  | some text => return text
  | none => fail (bad "rpc string is not valid UTF-8")

def triple : Reader IdTriple := return ⟨← u32, ← u32, ← u32⟩

def triples : Reader (List IdTriple) := counted triple

section Readers

variable (format : AddrText)

def address (problem : IoError) : Reader SocketAddr := do
  match format.parse (← string) with
  | some addr => return addr
  | none => fail problem

/-- What follows the kind of an operation. -/
def opBody : Nat → Reader LogOp
  | 1 => return .insert (← triple)
  | 2 => return .delete (← triple)
  | 3 => do
    let id ← node
    return .addNode id (← address format (bad "rpc add-node addr is not a socket address"))
  | 4 => return .removeNode (← node)
  | 5 => return .noop
  | _ => fail (bad "unknown log-op kind")

def op : Reader LogOp := do opBody format (← u8).toNat

def entry : Reader LogEntry := return ⟨← u64, ← op format⟩

def entries : Reader (List LogEntry) := counted (entry format)

def member : Reader (NodeId × SocketAddr) :=
  return (← node, ← address format (bad "rpc config member addr is not a socket address"))

end Readers

end Rpc

open Rpc

/-! ## Requests -/

namespace Request

variable (format : AddrText)

def encode : Request → Bytes
  | .exists sub pred obj => [1] ++ putU32 sub ++ putU32 pred ++ putU32 obj
  | .poByS sub => [2] ++ putU32 sub
  | .oBySp sub pred => [3] ++ putU32 sub ++ putU32 pred
  | .pBySo sub obj => [4] ++ putU32 sub ++ putU32 obj
  | .psByO obj => [5] ++ putU32 obj
  | .sByPo pred obj => [6] ++ putU32 pred ++ putU32 obj
  | .soByP pred => [7] ++ putU32 pred
  | .subsByP pred => [8] ++ putU32 pred
  | .objsByP pred => [9] ++ putU32 pred
  | .subjectKeys => [10]
  | .objectKeys => [11]
  | .predicates => [12]
  | .tripleCount => [13]
  | .predCard pred => [14] ++ putU32 pred
  | .insert sub pred obj => [15] ++ putU32 sub ++ putU32 pred ++ putU32 obj
  | .requestVote term candidateId lastLogIndex lastLogTerm =>
    [16] ++ putU64 term ++ putNode candidateId ++ putU64 lastLogIndex ++ putU64 lastLogTerm
  | .appendEntries term leaderId prevLogIndex prevLogTerm leaderCommit entries =>
    [17] ++ putU64 term ++ putNode leaderId ++ putU64 prevLogIndex ++ putU64 prevLogTerm ++
      putU64 leaderCommit ++ putEntries format entries
  | .installSnapshot term leaderId lastIncludedIndex lastIncludedTerm triples =>
    [18] ++ putU64 term ++ putNode leaderId ++ putU64 lastIncludedIndex ++
      putU64 lastIncludedTerm ++ putTriples triples
  | .clientWrite op => [19] ++ putOp format op
  | .clusterStatus => [20]
  | .getConfig => [21]
  | .scanShard shard numShards => [22] ++ putU32 shard ++ putU32 numShards
  | .purgeShard shard numShards => [23] ++ putU32 shard ++ putU32 numShards

/-- What follows the tag. -/
def body : Nat → Reader Request
  | 1 => return .exists (← u32) (← u32) (← u32)
  | 2 => return .poByS (← u32)
  | 3 => return .oBySp (← u32) (← u32)
  | 4 => return .pBySo (← u32) (← u32)
  | 5 => return .psByO (← u32)
  | 6 => return .sByPo (← u32) (← u32)
  | 7 => return .soByP (← u32)
  | 8 => return .subsByP (← u32)
  | 9 => return .objsByP (← u32)
  | 10 => return .subjectKeys
  | 11 => return .objectKeys
  | 12 => return .predicates
  | 13 => return .tripleCount
  | 14 => return .predCard (← u32)
  | 15 => return .insert (← u32) (← u32) (← u32)
  | 16 => return .requestVote (← u64) (← node) (← u64) (← u64)
  | 17 => return .appendEntries (← u64) (← node) (← u64) (← u64) (← u64) (← entries format)
  | 18 => return .installSnapshot (← u64) (← node) (← u64) (← u64) (← triples)
  | 19 => return .clientWrite (← op format)
  | 20 => return .clusterStatus
  | 21 => return .getConfig
  | 22 => return .scanShard (← u32) (← u32)
  | 23 => return .purgeShard (← u32) (← u32)
  | _ => fail (bad "unknown rpc request tag")

def read : Reader Request := do body format (← u8).toNat

def decode : Bytes → Except (Stop IoError) Request := run (read format)

end Request

/-! ## Responses -/

namespace Response

variable (format : AddrText)

def encode : Response → Bytes
  | .bool value => [1] ++ putBool value
  | .count value => [2] ++ putU64 value
  | .ids values => [3] ++ putIds values
  | .pairs values => [4] ++ putPairs values
  | .error message => [5] ++ putStr message.toList
  | .vote term granted => [6] ++ putU64 term ++ putBool granted
  | .appendAck term success matchIndex =>
    [7] ++ putU64 term ++ putBool success ++ putU64 matchIndex
  | .snapshotAck term => [8] ++ putU64 term
  | .writeAck ok leaderHint index => [9] ++ putBool ok ++ putI64 leaderHint ++ putU64 index
  | .status term role leaderHint commitIndex lastLogIndex =>
    [10] ++ putU64 term ++ [UInt8.ofNat role] ++ putI64 leaderHint ++ putU64 commitIndex ++
      putU64 lastLogIndex
  | .triples values => [11] ++ putTriples values
  | .config epoch numShards members assignment =>
    [12] ++ putU64 epoch ++ putU32 numShards ++
      (putCount members.length ++ members.flatMap (putMember format)) ++
      (putCount assignment.length ++ assignment.flatMap putNode)

/-- What follows the tag. -/
def body : Nat → Reader Response
  | 1 => return .bool (← flag)
  | 2 => return .count (← u64)
  | 3 => return .ids (← Rpc.ids)
  | 4 => return .pairs (← Rpc.pairs)
  | 5 => return .error (String.ofList (← string))
  | 6 => return .vote (← u64) (← flag)
  | 7 => return .appendAck (← u64) (← flag) (← u64)
  | 8 => return .snapshotAck (← u64)
  | 9 => return .writeAck (← flag) (← i64) (← u64)
  | 10 => return .status (← u64) (← u8).toNat (← i64) (← u64) (← u64)
  | 11 => return .triples (← Rpc.triples)
  | 12 => return .config (← u64) (← u32) (← counted (member format)) (← counted node)
  | _ => fail (bad "unknown rpc response tag")

def read : Reader Response := do body format (← u8).toNat

def decode : Bytes → Except (Stop IoError) Response := run (read format)

end Response

/-! ## Values on the wire -/

section OnWire

variable (format : AddrText)

/-- The value of a `u64`. -/
def IsU64 (value : Nat) : Prop := value < 2 ^ 64

/-- The length of a vector or a string that the wire has room for. -/
def IsCount (count : Nat) : Prop := count < 2 ^ 32

/-- The value of an `i64`. -/
def IsI64 (value : Int) : Prop := -2 ^ 63 ≤ value ∧ value < 2 ^ 63

def TextOnWire (text : Text) : Prop := IsCount (utf8 text).length

/-- An address that its text gives back. -/
def AddrOnWire (addr : SocketAddr) : Prop :=
  format.parse (format.toText addr) = some addr ∧ TextOnWire (format.toText addr)

namespace LogOp

def OnWire : LogOp → Prop
  | .addNode _ addr => AddrOnWire format addr
  | .insert _ | .delete _ | .removeNode _ | .noop => True

end LogOp

structure LogEntry.OnWire (entry : LogEntry) : Prop where
  term : IsU64 entry.term
  op : entry.op.OnWire format

namespace Request

def OnWire : Request → Prop
  | .requestVote term _ lastLogIndex lastLogTerm =>
    IsU64 term ∧ IsU64 lastLogIndex ∧ IsU64 lastLogTerm
  | .appendEntries term _ prevLogIndex prevLogTerm leaderCommit entries =>
    IsU64 term ∧ IsU64 prevLogIndex ∧ IsU64 prevLogTerm ∧ IsU64 leaderCommit ∧
      IsCount entries.length ∧ ∀ entry ∈ entries, entry.OnWire format
  | .installSnapshot term _ lastIncludedIndex lastIncludedTerm triples =>
    IsU64 term ∧ IsU64 lastIncludedIndex ∧ IsU64 lastIncludedTerm ∧ IsCount triples.length
  | .clientWrite op => op.OnWire format
  | _ => True

end Request

namespace Response

def OnWire : Response → Prop
  | .count value => IsU64 value
  | .ids values => IsCount values.length
  | .pairs values => IsCount values.length
  | .error message => TextOnWire message.toList
  | .vote term _ => IsU64 term
  | .appendAck term _ matchIndex => IsU64 term ∧ IsU64 matchIndex
  | .snapshotAck term => IsU64 term
  | .writeAck _ leaderHint index => IsI64 leaderHint ∧ IsU64 index
  | .status term role leaderHint commitIndex lastLogIndex =>
    IsU64 term ∧ role < 256 ∧ IsI64 leaderHint ∧ IsU64 commitIndex ∧ IsU64 lastLogIndex
  | .triples values => IsCount values.length
  | .config epoch _ members assignment =>
    IsU64 epoch ∧ IsCount members.length ∧ (∀ member ∈ members, AddrOnWire format member.2) ∧
      IsCount assignment.length
  | .bool _ => True

end Response

end OnWire

/-! ## Reading what was written -/

namespace Rpc

variable {format : AddrText}

theorem Reads.cast {α : Type} {read : Reader α} {bytes other : Bytes} {value : α}
    (reads : Reads read bytes value) (same : bytes = other) : Reads read other value :=
  same ▸ reads

theorem reads_u8 (byte : UInt8) : Reads u8 [byte] byte := by
  have indexed : Reads (index [byte] 0 : Reader UInt8) [] byte :=
    ⟨fun _ _ => rfl, fun _ some split => absurd (List.append_eq_nil_iff.mp split).2 some⟩
  exact (Reads.take truncated [byte]).bind indexed

theorem reads_u32 (value : UInt32) : Reads u32 (putU32 value) value := by
  have small : value.toNat < 256 ^ 4 := value.toNat_lt
  have read := (Reads.bigEndian truncated small).map UInt32.ofNat
  rwa [UInt32.ofNat_toNat] at read

theorem reads_u64 {value : Nat} (small : IsU64 value) : Reads u64 (putU64 value) value :=
  Reads.bigEndian truncated small

theorem reads_node (id : NodeId) : Reads node (putNode id) id := by
  have small : id.toNat < 256 ^ 8 := id.toNat_lt
  have read := (Reads.bigEndian truncated small).map UInt64.ofNat
  rwa [UInt64.ofNat_toNat] at read

theorem reads_i64 {value : Int} (inside : IsI64 value) : Reads i64 (putI64 value) value := by
  obtain ⟨low, high⟩ := inside
  have small : IsU64 (value % 2 ^ 64).toNat := by
    rw [IsU64]
    omega
  have read := (reads_u64 small).map fun read => Int.bmod read (2 ^ 64)
  have back : Int.bmod ((value % 2 ^ 64).toNat : Int) (2 ^ 64) = value := by
    rw [Int.bmod_def]
    omega
  rw [back] at read
  exact read

theorem reads_flag (value : Bool) : Reads flag (putBool value) value := by
  cases value with
  | false => exact (reads_u8 0).map (· != 0)
  | true => exact (reads_u8 1).map (· != 0)

theorem reads_counted {α : Type} {read : Reader α} {put : α → Bytes} {values : List α}
    (count : IsCount values.length) (reads : ∀ value ∈ values, Reads read (put value) value) :
    Reads (counted read) (putCount values.length ++ values.flatMap put) values := by
  have same : (UInt32.ofNat values.length).toNat = values.length :=
    UInt32.toNat_ofNat_of_lt' count
  refine (reads_u32 _).bind ?_
  rw [same]
  exact Reads.times reads

theorem reads_pair (pair : UInt32 × UInt32) :
    Reads (do return (← u32, ← u32) : Reader (UInt32 × UInt32)) (putPair pair) pair :=
  (reads_u32 pair.1).bind ((reads_u32 pair.2).map (Prod.mk pair.1))

theorem reads_string {text : Text} (fits : TextOnWire text) : Reads string (putStr text) text := by
  have same : (UInt32.ofNat (utf8 text).length).toNat = (utf8 text).length :=
    UInt32.toNat_ofNat_of_lt' fits
  refine (reads_u32 _).bind ?_
  rw [same]
  refine (Reads.take truncated (utf8 text)).bind_pure ?_
  rw [fromUtf8_utf8]

theorem reads_triple (value : IdTriple) : Reads triple (putTriple value) value := by
  refine Reads.cast ((reads_u32 value.sub).bind
    ((reads_u32 value.pred).bind ((reads_u32 value.obj).bind_pure rfl))) ?_
  exact (List.append_assoc _ _ _).symm

theorem reads_triples {values : List IdTriple} (count : IsCount values.length) :
    Reads triples (putTriples values) values :=
  reads_counted count fun value _ => reads_triple value

theorem reads_address {addr : SocketAddr} (wire : AddrOnWire format addr) (problem : IoError) :
    Reads (address format problem) (putStr (format.toText addr)) addr := by
  refine (reads_string wire.2).bind_pure ?_
  rw [wire.1]

theorem reads_op {value : LogOp} (wire : value.OnWire format) :
    Reads (op format) (putOp format value) value := by
  cases value with
  | insert triple => exact (reads_u8 1).bind ((reads_triple triple).map LogOp.insert)
  | delete triple => exact (reads_u8 2).bind ((reads_triple triple).map LogOp.delete)
  | addNode id addr =>
    refine Reads.cast ((reads_u8 3).bind
      ((reads_node id).bind ((reads_address wire _).bind_pure rfl))) ?_
    exact (List.append_assoc _ _ _).symm
  | removeNode id => exact (reads_u8 4).bind ((reads_node id).map LogOp.removeNode)
  | noop => exact (reads_u8 5).bind_pure rfl

theorem reads_entry {value : LogEntry} (wire : value.OnWire format) :
    Reads (entry format) (putEntry format value) value :=
  (reads_u64 wire.term).bind ((reads_op wire.op).map (LogEntry.mk value.term))

theorem reads_entries {values : List LogEntry} (count : IsCount values.length)
    (wire : ∀ value ∈ values, value.OnWire format) :
    Reads (entries format) (putEntries format values) values :=
  reads_counted count fun value member => reads_entry (wire value member)

theorem reads_member {value : NodeId × SocketAddr} (wire : AddrOnWire format value.2) :
    Reads (member format) (putMember format value) value :=
  (reads_node value.1).bind ((reads_address wire _).map (Prod.mk value.1))

end Rpc

/-- A request is read from its bytes. -/
theorem Request.reads_encode {format : AddrText} {request : Request}
    (wire : request.OnWire format) :
    Reads (Request.read format) (request.encode format) request := by
  cases request with
  | «exists» sub pred obj =>
    refine Reads.cast ((reads_u8 1).bind ((reads_u32 sub).bind ((reads_u32 pred).bind
      ((reads_u32 obj).bind_pure rfl)))) ?_
    simp only [Request.encode, List.append_assoc]
  | poByS sub =>
    exact (reads_u8 2).bind ((reads_u32 sub).bind_pure rfl)
  | oBySp sub pred =>
    refine Reads.cast ((reads_u8 3).bind ((reads_u32 sub).bind
      ((reads_u32 pred).bind_pure rfl))) ?_
    simp only [Request.encode, List.append_assoc]
  | pBySo sub obj =>
    refine Reads.cast ((reads_u8 4).bind ((reads_u32 sub).bind
      ((reads_u32 obj).bind_pure rfl))) ?_
    simp only [Request.encode, List.append_assoc]
  | psByO obj =>
    exact (reads_u8 5).bind ((reads_u32 obj).bind_pure rfl)
  | sByPo pred obj =>
    refine Reads.cast ((reads_u8 6).bind ((reads_u32 pred).bind
      ((reads_u32 obj).bind_pure rfl))) ?_
    simp only [Request.encode, List.append_assoc]
  | soByP pred =>
    exact (reads_u8 7).bind ((reads_u32 pred).bind_pure rfl)
  | subsByP pred =>
    exact (reads_u8 8).bind ((reads_u32 pred).bind_pure rfl)
  | objsByP pred =>
    exact (reads_u8 9).bind ((reads_u32 pred).bind_pure rfl)
  | subjectKeys =>
    exact (reads_u8 10).bind_pure rfl
  | objectKeys =>
    exact (reads_u8 11).bind_pure rfl
  | predicates =>
    exact (reads_u8 12).bind_pure rfl
  | tripleCount =>
    exact (reads_u8 13).bind_pure rfl
  | predCard pred =>
    exact (reads_u8 14).bind ((reads_u32 pred).bind_pure rfl)
  | insert sub pred obj =>
    refine Reads.cast ((reads_u8 15).bind ((reads_u32 sub).bind ((reads_u32 pred).bind
      ((reads_u32 obj).bind_pure rfl)))) ?_
    simp only [Request.encode, List.append_assoc]
  | requestVote term candidateId lastLogIndex lastLogTerm =>
    obtain ⟨termWire, indexWire, lastWire⟩ := wire
    refine Reads.cast ((reads_u8 16).bind ((reads_u64 termWire).bind
      ((reads_node candidateId).bind ((reads_u64 indexWire).bind
        ((reads_u64 lastWire).bind_pure rfl))))) ?_
    simp only [Request.encode, List.append_assoc]
  | appendEntries term leaderId prevLogIndex prevLogTerm leaderCommit entries =>
    obtain ⟨termWire, prevIndexWire, prevTermWire, commitWire, countWire, entriesWire⟩ := wire
    refine Reads.cast ((reads_u8 17).bind ((reads_u64 termWire).bind ((reads_node leaderId).bind
      ((reads_u64 prevIndexWire).bind ((reads_u64 prevTermWire).bind ((reads_u64 commitWire).bind
      ((reads_entries countWire entriesWire).bind_pure rfl))))))) ?_
    simp only [Request.encode, List.append_assoc]
  | installSnapshot term leaderId lastIncludedIndex lastIncludedTerm triples =>
    obtain ⟨termWire, indexWire, lastWire, countWire⟩ := wire
    refine Reads.cast ((reads_u8 18).bind ((reads_u64 termWire).bind ((reads_node leaderId).bind
      ((reads_u64 indexWire).bind ((reads_u64 lastWire).bind
      ((reads_triples countWire).bind_pure rfl)))))) ?_
    simp only [Request.encode, List.append_assoc]
  | clientWrite op =>
    exact (reads_u8 19).bind ((reads_op wire).bind_pure rfl)
  | clusterStatus =>
    exact (reads_u8 20).bind_pure rfl
  | getConfig =>
    exact (reads_u8 21).bind_pure rfl
  | scanShard shard numShards =>
    refine Reads.cast ((reads_u8 22).bind ((reads_u32 shard).bind
      ((reads_u32 numShards).bind_pure rfl))) ?_
    simp only [Request.encode, List.append_assoc]
  | purgeShard shard numShards =>
    refine Reads.cast ((reads_u8 23).bind ((reads_u32 shard).bind
      ((reads_u32 numShards).bind_pure rfl))) ?_
    simp only [Request.encode, List.append_assoc]

/-- A response is read from its bytes. -/
theorem Response.reads_encode {format : AddrText} {response : Response}
    (wire : response.OnWire format) :
    Reads (Response.read format) (response.encode format) response := by
  cases response with
  | bool value => exact (reads_u8 1).bind ((reads_flag value).bind_pure rfl)
  | count value => exact (reads_u8 2).bind ((reads_u64 wire).bind_pure rfl)
  | ids values =>
    have read : Reads Rpc.ids (putIds values) values :=
      reads_counted wire fun value _ => reads_u32 value
    exact (reads_u8 3).bind (read.bind_pure rfl)
  | pairs values =>
    have read : Reads Rpc.pairs (putPairs values) values :=
      reads_counted wire fun value _ => reads_pair value
    exact (reads_u8 4).bind (read.bind_pure rfl)
  | error message =>
    refine (reads_u8 5).bind ((reads_string wire).bind_pure ?_)
    rw [String.ofList_toList]
  | vote term granted =>
    refine Reads.cast ((reads_u8 6).bind ((reads_u64 wire).bind
      ((reads_flag granted).bind_pure rfl))) ?_
    simp only [Response.encode, List.append_assoc]
  | appendAck term success matchIndex =>
    obtain ⟨termWire, matchWire⟩ := wire
    refine Reads.cast ((reads_u8 7).bind ((reads_u64 termWire).bind
      ((reads_flag success).bind ((reads_u64 matchWire).bind_pure rfl)))) ?_
    simp only [Response.encode, List.append_assoc]
  | snapshotAck term => exact (reads_u8 8).bind ((reads_u64 wire).bind_pure rfl)
  | writeAck ok leaderHint index =>
    obtain ⟨hintWire, indexWire⟩ := wire
    refine Reads.cast ((reads_u8 9).bind ((reads_flag ok).bind
      ((reads_i64 hintWire).bind ((reads_u64 indexWire).bind_pure rfl)))) ?_
    simp only [Response.encode, List.append_assoc]
  | status term role leaderHint commitIndex lastLogIndex =>
    obtain ⟨termWire, roleWire, hintWire, commitWire, lastWire⟩ := wire
    have same : (UInt8.ofNat role).toNat = role := UInt8.toNat_ofNat_of_lt' roleWire
    refine Reads.cast ((reads_u8 10).bind ((reads_u64 termWire).bind
      ((reads_u8 (UInt8.ofNat role)).bind ((reads_i64 hintWire).bind
        ((reads_u64 commitWire).bind ((reads_u64 lastWire).bind_pure ?_)))))) ?_
    · rw [same]
    · simp only [Response.encode, List.append_assoc]
  | triples values => exact (reads_u8 11).bind ((reads_triples wire).bind_pure rfl)
  | config epoch numShards members assignment =>
    obtain ⟨epochWire, membersWire, addrWire, assignmentWire⟩ := wire
    have readMembers : Reads (counted (member format))
        (putCount members.length ++ members.flatMap (putMember format)) members :=
      reads_counted membersWire fun value inside => reads_member (addrWire value inside)
    have readAssignment : Reads (counted node)
        (putCount assignment.length ++ assignment.flatMap putNode) assignment :=
      reads_counted assignmentWire fun value _ => reads_node value
    refine Reads.cast ((reads_u8 12).bind ((reads_u64 epochWire).bind
      ((reads_u32 numShards).bind (readMembers.bind (readAssignment.bind_pure rfl))))) ?_
    simp only [Response.encode, List.append_assoc]

/-! ## No panic -/

namespace Rpc

variable {format : AddrText}

theorem calm_u8 : Calm u8 :=
  Calm.take_bind fun _ length => Calm.index (length ▸ Nat.one_pos)

theorem calm_u32 : Calm u32 := (Calm.bigEndian _ _).bind fun _ => .pure _

theorem calm_u64 : Calm u64 := Calm.bigEndian _ _

theorem calm_node : Calm node := calm_u64.bind fun _ => .pure _

theorem calm_i64 : Calm i64 := calm_u64.bind fun _ => .pure _

theorem calm_flag : Calm flag := calm_u8.bind fun _ => .pure _

theorem calm_counted {α : Type} {read : Reader α} (calm : Calm read) : Calm (counted read) :=
  calm_u32.bind fun count => calm.times count.toNat

theorem calm_string : Calm string := by
  refine calm_u32.bind fun count => (Calm.take _ _).bind fun bytes => ?_
  split
  · exact .pure _
  · exact .fail _

theorem calm_triple : Calm triple :=
  calm_u32.bind fun _ => calm_u32.bind fun _ => calm_u32.bind fun _ => .pure _

theorem calm_address (problem : IoError) : Calm (address format problem) := by
  refine calm_string.bind fun text => ?_
  split
  · exact .pure _
  · exact .fail _

theorem calm_op : Calm (op format) := by
  refine calm_u8.bind fun kind => ?_
  unfold opBody
  split
  · exact calm_triple.bind fun _ => .pure _
  · exact calm_triple.bind fun _ => .pure _
  · exact calm_node.bind fun id => (calm_address _).bind fun _ => .pure _
  · exact calm_node.bind fun _ => .pure _
  · exact .pure _
  · exact .fail _

theorem calm_pairs : Calm pairs :=
  calm_counted (calm_u32.bind fun _ => calm_u32.bind fun _ => .pure _)

theorem calm_members : Calm (counted (member format)) :=
  calm_counted (calm_node.bind fun _ => (calm_address _).bind fun _ => .pure _)

theorem calm_entries : Calm (entries format) :=
  calm_counted (calm_u64.bind fun _ => calm_op.bind fun _ => .pure _)

end Rpc

theorem Request.calm_read (format : AddrText) : Calm (Request.read format) := by
  refine calm_u8.bind fun tag => ?_
  unfold Request.body
  split
  · exact calm_u32.bind fun _ => calm_u32.bind fun _ => calm_u32.bind fun _ => .pure _
  · exact calm_u32.bind fun _ => .pure _
  · exact calm_u32.bind fun _ => calm_u32.bind fun _ => .pure _
  · exact calm_u32.bind fun _ => calm_u32.bind fun _ => .pure _
  · exact calm_u32.bind fun _ => .pure _
  · exact calm_u32.bind fun _ => calm_u32.bind fun _ => .pure _
  · exact calm_u32.bind fun _ => .pure _
  · exact calm_u32.bind fun _ => .pure _
  · exact calm_u32.bind fun _ => .pure _
  · exact .pure _
  · exact .pure _
  · exact .pure _
  · exact .pure _
  · exact calm_u32.bind fun _ => .pure _
  · exact calm_u32.bind fun _ => calm_u32.bind fun _ => calm_u32.bind fun _ => .pure _
  · exact calm_u64.bind fun _ => calm_node.bind fun _ => calm_u64.bind fun _ =>
      calm_u64.bind fun _ => .pure _
  · exact calm_u64.bind fun _ => calm_node.bind fun _ => calm_u64.bind fun _ =>
      calm_u64.bind fun _ =>
      calm_u64.bind fun _ => calm_entries.bind fun _ => .pure _
  · exact calm_u64.bind fun _ => calm_node.bind fun _ => calm_u64.bind fun _ =>
      calm_u64.bind fun _ =>
      (calm_counted calm_triple).bind fun _ => .pure _
  · exact calm_op.bind fun _ => .pure _
  · exact .pure _
  · exact .pure _
  · exact calm_u32.bind fun _ => calm_u32.bind fun _ => .pure _
  · exact calm_u32.bind fun _ => calm_u32.bind fun _ => .pure _
  · exact .fail _

theorem Response.calm_read (format : AddrText) : Calm (Response.read format) := by
  refine calm_u8.bind fun tag => ?_
  unfold Response.body
  split
  · exact calm_flag.bind fun _ => .pure _
  · exact calm_u64.bind fun _ => .pure _
  · exact (calm_counted calm_u32).bind fun _ => .pure _
  · exact calm_pairs.bind fun _ => .pure _
  · exact calm_string.bind fun _ => .pure _
  · exact calm_u64.bind fun _ => calm_flag.bind fun _ => .pure _
  · exact calm_u64.bind fun _ => calm_flag.bind fun _ => calm_u64.bind fun _ => .pure _
  · exact calm_u64.bind fun _ => .pure _
  · exact calm_flag.bind fun _ => calm_i64.bind fun _ => calm_u64.bind fun _ => .pure _
  · exact calm_u64.bind fun _ => calm_u8.bind fun _ => calm_i64.bind fun _ => calm_u64.bind fun _ =>
      calm_u64.bind fun _ => .pure _
  · exact (calm_counted calm_triple).bind fun _ => .pure _
  · exact calm_u64.bind fun _ => calm_u32.bind fun _ => calm_members.bind fun _ =>
      (calm_counted calm_node).bind fun _ => .pure _
  · exact .fail _

/-! ## Streams -/

namespace Rpc

/-- What a payload is on a stream. -/
def frame (payload : Bytes) : Bytes := be32 (UInt32.ofNat payload.length) ++ payload

theorem writeMessages_eq {payloads : List Bytes}
    (fit : ∀ payload ∈ payloads, payload.length ≤ maxFrame) :
    writeMessages payloads = .ok (payloads.flatMap frame) := by
  have onto : ∀ stream, payloads.foldlM writeMessage stream =
      .ok (stream ++ payloads.flatMap frame) := by
    induction payloads with
    | nil =>
      intro stream
      rw [List.flatMap_nil, List.append_nil]
      rfl
    | cons payload rest induction =>
      intro stream
      have here := fit payload List.mem_cons_self
      have written : writeMessage stream payload = .ok (stream ++ frame payload) := by
        rw [writeMessage, if_neg (Nat.not_lt_of_le here), frame, List.append_assoc]
      rw [List.foldlM_cons, written]
      change rest.foldlM writeMessage (stream ++ frame payload) = _
      rw [induction fun other member => fit other (List.mem_cons_of_mem _ member),
        List.flatMap_cons, List.append_assoc]
  exact onto []

theorem readExact_append (front rest : Bytes) :
    readExact front.length (front ++ rest) = .ok (front, rest) := by
  rw [readExact, if_neg (by simp), List.take_left, List.drop_left]

theorem readMessage_of_readExact {stream length rest : Bytes}
    (read : readExact 4 stream = .ok (length, rest)) : readMessage stream =
      if maxFrame < (ofBe32 length).toNat then .error .invalidData
      else readExact (ofBe32 length).toNat rest := by
  rw [readMessage, read]
  rfl

/-- A frame is read, and what follows it is left. -/
theorem readMessage_frame {payload : Bytes} (fits : payload.length ≤ maxFrame) (rest : Bytes) :
    readMessage (frame payload ++ rest) = .ok (payload, rest) := by
  have small : payload.length < 2 ^ 32 := fits.trans_lt (by norm_num [maxFrame])
  have count : (ofBe32 (be32 (UInt32.ofNat payload.length))).toNat = payload.length :=
    (congrArg UInt32.toNat (ofBe32_be32 _)).trans (UInt32.toNat_ofNat_of_lt' small)
  have prefixed : readExact 4 (frame payload ++ rest) =
      .ok (be32 (UInt32.ofNat payload.length), payload ++ rest) := by
    have read := readExact_append (be32 (UInt32.ofNat payload.length)) (payload ++ rest)
    rwa [length_be32, ← List.append_assoc] at read
  rw [readMessage_of_readExact prefixed, count, if_neg (Nat.not_lt_of_le fits), readExact_append]

theorem readMessages_frames {payloads : List Bytes}
    (fit : ∀ payload ∈ payloads, payload.length ≤ maxFrame) :
    readMessages payloads.length (payloads.flatMap frame) = .ok (payloads, []) := by
  induction payloads with
  | nil => rfl
  | cons payload rest induction =>
    have later := induction fun other member => fit other (List.mem_cons_of_mem _ member)
    rw [List.length_cons, readMessages, List.flatMap_cons,
      readMessage_frame (fit payload List.mem_cons_self)]
    change (readMessages rest.length (rest.flatMap frame) >>= _) = _
    rw [later]
    rfl

/-- Requests, responses and streams of frames come back as they were sent, and nothing that is
received makes the codec panic. -/
theorem codec_exact (format : AddrText) :
    (∀ request : Request, request.OnWire format →
      RoundTrips (Request.decode format) (request.encode format) request) ∧
    (∀ response : Response, response.OnWire format →
      RoundTrips (Response.decode format) (response.encode format) response) ∧
    (∀ payload, Request.decode format payload ≠ .error .panic ∧
      Response.decode format payload ≠ .error .panic) ∧
    ∀ payloads : List Bytes, (∀ payload ∈ payloads, payload.length ≤ maxFrame) →
      ∃ stream, writeMessages payloads = .ok stream ∧
        readMessages payloads.length stream = .ok (payloads, []) ∧
        readMessage [] = .error .unexpectedEof := by
  refine ⟨fun request wire => ?_, fun response wire => ?_, fun payload => ⟨?_, ?_⟩, ?_⟩
  · exact (Request.reads_encode wire).roundTrips
  · exact (Response.reads_encode wire).roundTrips
  · exact (Request.calm_read format).run_ne_panic payload
  · exact (Response.calm_read format).run_ne_panic payload
  · intro payloads fit
    exact ⟨_, writeMessages_eq fit, readMessages_frames fit, rfl⟩

/-- The text of the address `0.0.0.0:80`, and no other one. -/
def oneAddress : AddrText where
  toText addr := if addr = ⟨.v4 0, 80⟩ then "0.0.0.0:80".toList else []
  parse text := if text = "0.0.0.0:80".toList then some ⟨.v4 0, 80⟩ else none

/-- A node joins, and the node that was asked answers with the index of the entry. -/
theorem codec_exact_addNode :
    RoundTrips (Request.decode oneAddress)
      ((Request.clientWrite (.addNode 7 ⟨.v4 0, 80⟩)).encode oneAddress)
      (.clientWrite (.addNode 7 ⟨.v4 0, 80⟩)) ∧
    RoundTrips (Response.decode oneAddress) ((Response.writeAck true (-1) 3).encode oneAddress)
      (.writeAck true (-1) 3) ∧
    ∃ stream, writeMessages [[1, 2], []] = .ok stream ∧
      readMessages 2 stream = .ok ([[1, 2], []], []) ∧ readMessage [] = .error .unexpectedEof := by
  have exact_ := codec_exact oneAddress
  have wire : AddrOnWire oneAddress ⟨.v4 0, 80⟩ := by
    have length : (utf8 (oneAddress.toText ⟨.v4 0, 80⟩)).length = 10 := by decide
    refine ⟨by decide, ?_⟩
    rw [TextOnWire, length, IsCount]
    norm_num
  refine ⟨exact_.1 _ wire, exact_.2.1 _ ⟨by norm_num [IsI64], by norm_num [IsU64]⟩, ?_⟩
  exact exact_.2.2.2 [[1, 2], []] (by decide)

end Rpc

end GStore.Cluster
