import AutomatonCore.Smartproto.SmartProtocol
import Mathlib.Algebra.Ring.Int.Defs

/-!
# Messages on the wire

A message travels as a blob: one character with the wire id of its type,
followed by the serialized message.  Characters have a sign.  The factory that
makes the received messages is kept in a static variable of `get_wire_msg`,
which all nodes of the process share.
-/

namespace AutomatonCore.Node

open Data Io Smartproto List
open SmartProtocol (load LastAt load_maps getFactoryFromWire plainFile)

/-- What a node receives: `on_message_received` refuses messages of size
zero. -/
abbrev Blob := { blob : Bytes // blob ≠ [] }

def charValue (byte : UInt8) : Int :=
  byte.toInt8.toInt

def wireIdOf (blob : Blob) : Int :=
  charValue (blob.val.head blob.property)

/-- A message: the protocol whose factory has made it, its schema, and the
bytes of its contents. -/
structure WireMsg (ι : Type) where
  factory : ι
  schemaId : Nat
  contents : Bytes
  deriving DecidableEq

variable {ι ν : Type}

/-- The blob that `send_message` builds; a message that is not part of the
protocol fails a check. -/
def sendMessage (proto : SmartProtocol) (msg : WireMsg ι) : Option Blob :=
  let wireId := proto.getWireFromFactory msg.schemaId
  if wireId > -1 then some ⟨UInt8.ofNat wireId.toNat :: msg.contents, cons_ne_nil _ _⟩
  else none

/-- `get_wire_msg` of a node with the protocol `proto`: the contents of the
static variable afterwards and the message, or nothing if a check fails, which
ends the process. -/
def getWireMsg (protocols : ι → SmartProtocol) (factory : Option ι)
    (proto : ι) (blob : Blob) : Option (ι × WireMsg ι) :=
  let wireId := wireIdOf blob
  let msgId := (protocols proto).getFactoryFromWire wireId
  if msgId > -1 then
    -- the static variable is initialized by the first call
    let factory := factory.getD proto
    -- the check of `new_message_by_id`
    if msgId.toNat < (protocols factory).factory.getSchemasNumber then
      some (factory, ⟨factory, msgId.toNat, blob.val.drop 1⟩)
    else none
  else none

def scriptOnMsg (wireMsgs : List Bytes) (wireId : Nat) : Option Bytes :=
  wireMsgs[wireId]?.map (text "on_" ++ ·)

/-- `s_on_blob_received` of a Lua node: the script function that is called,
and the message.  The keys of `script_on_msg` have no sign. -/
def sOnBlobReceived (protocols : ι → SmartProtocol) (factory : Option ι)
    (proto : ι) (blob : Blob) : Option (ι × Bytes × WireMsg ι) :=
  let key := (wireIdOf blob % 2 ^ 32).toNat
  match scriptOnMsg (protocols proto).wireMsgs key with
  | none => none
  | some function => do
    let (factory, msg) ← getWireMsg protocols factory proto blob
    return (factory, function, msg)

/-! ## Wire ids -/

theorem charValue_eq (b : UInt8) :
    charValue b =
      if b.toNat < 128 then (b.toNat : Int)
      else (b.toNat : Int) - 256 := by
  revert b
  apply forall_byte
  decide +kernel

def arriving (wireId : Nat) : Int :=
  charValue (UInt8.ofNat wireId)

def wireBlob (wireId : Nat) (contents : Bytes) : Blob :=
  ⟨UInt8.ofNat wireId :: contents, cons_ne_nil _ _⟩

theorem arriving_low {wireId : Nat} (low : wireId % 256 < 128) :
    arriving wireId = (wireId % 256 : Nat) := by
  have v : (UInt8.ofNat wireId).toNat = wireId % 256 := UInt8.toNat_ofNat'
  rw [arriving, charValue_eq, v, if_pos low]

theorem arriving_high {wireId : Nat} (high : ¬ wireId % 256 < 128) : arriving wireId < 0 := by
  have v : (UInt8.ofNat wireId).toNat = wireId % 256 := UInt8.toNat_ofNat'
  rw [arriving, charValue_eq, v]
  omega

variable {protocols : ι → SmartProtocol} {proto : ι} {factory : Option ι}
  {wireMsgs : List Bytes}

variable {protocol : SmartProtocol} {name : Bytes} {pos : Nat} {blob : Blob}
  {call : ν × Blob}

theorem schemaId_lt {id : Nat}
    (maps : protocol.Maps wireMsgs) (known : protocol.factory.getSchemaId name = .ok id) :
    id < protocol.factory.getSchemasNumber := by
  have named := (maps.registered.getSchemaId_iff _ _).mp known
  rw [ProtobufFactory.getSchemaName_eq_some] at named
  have bound := (List.getElem?_eq_some_iff.mp named).1
  rw [List.length_map] at bound
  exact bound

theorem getFactoryFromWire_at {id : Nat}
    (maps : protocol.Maps wireMsgs) (here : wireMsgs[pos]? = some name)
    (known : protocol.factory.getSchemaId name = .ok id) :
    protocol.getFactoryFromWire pos = id := by
  have found := (maps.wire pos id).mpr ⟨pos, id, name, rfl, rfl, here, known⟩
  rw [getFactoryFromWire, found]
  rfl

theorem getFactoryFromWire_cases (maps : protocol.Maps wireMsgs) (wireId : Int) :
    protocol.getFactoryFromWire wireId = -1 ∨ ∃ (pos id : Nat) (name : Bytes),
      wireId = pos ∧ protocol.getFactoryFromWire wireId = id ∧
      wireMsgs[pos]? = some name ∧ protocol.factory.getSchemaId name = .ok id := by
  rw [getFactoryFromWire]
  cases found : protocol.wireToFactory.lookup wireId with
  | none => exact .inl rfl
  | some factoryId =>
    obtain ⟨pos, id, name, place, v, here, known⟩ := (maps.wire wireId factoryId).mp found
    exact .inr ⟨pos, id, name, place, v, here, known⟩

theorem getWireMsg_at {id : Nat}
    (maps : (protocols proto).Maps wireMsgs) (own : factory.getD proto = proto)
    (arrives : wireIdOf blob = pos) (here : wireMsgs[pos]? = some name)
    (known : (protocols proto).factory.getSchemaId name = .ok id) :
    getWireMsg protocols factory proto blob = some (proto, ⟨proto, id, blob.val.drop 1⟩) := by
  simp only [getWireMsg]
  rw [arrives, getFactoryFromWire_at maps here known, own,
    if_pos (by omega), Int.toNat_natCast, if_pos (schemaId_lt maps known)]

theorem getWireMsg_negative (maps : (protocols proto).Maps wireMsgs)
    (negative : wireIdOf blob < 0) : getWireMsg protocols factory proto blob = none := by
  simp only [getWireMsg]
  rcases getFactoryFromWire_cases maps (wireIdOf blob) with
    absent | ⟨pos, id, name, place, -⟩
  · rw [if_neg (by omega)]
  · omega

theorem sOnBlobReceived_at {id : Nat}
    (maps : (protocols proto).Maps (protocols proto).wireMsgs) (own : factory.getD proto = proto)
    (arrives : wireIdOf blob = pos) (low : pos < 2 ^ 32)
    (here : (protocols proto).wireMsgs[pos]? = some name)
    (known : (protocols proto).factory.getSchemaId name = .ok id) :
    sOnBlobReceived protocols factory proto blob =
      some (proto, text "on_" ++ name, ⟨proto, id, blob.val.drop 1⟩) := by
  have k : ((pos : Int) % 2 ^ 32).toNat = pos := by omega
  simp only [sOnBlobReceived, scriptOnMsg]
  rw [arrives, k, here, getWireMsg_at maps own arrives here known]
  rfl

theorem sOnBlobReceived_negative (maps : (protocols proto).Maps wireMsgs)
    (negative : wireIdOf blob < 0) : sOnBlobReceived protocols factory proto blob = none := by
  simp only [sOnBlobReceived]
  split
  · rfl
  · rw [getWireMsg_negative maps negative]
    rfl

theorem sendMessage_at {id : Nat} {contents : Bytes}
    {made : ι} (maps : protocol.Maps wireMsgs) (lastPlace : LastAt wireMsgs pos name)
    (known : protocol.factory.getSchemaId name = .ok id) :
    sendMessage protocol ⟨made, id, contents⟩ = some (wireBlob pos contents) := by
  have wireId : protocol.getWireFromFactory id = pos := by
    rw [SmartProtocol.getWireFromFactory, maps.schema pos id name lastPlace known]
    rfl
  have positive : (-1 : Int) < pos := by omega
  simp [sendMessage, wireId, positive, wireBlob]

/-- The id of a message type survives the way over the wire exactly if its
last position among the wire messages, modulo 256, is below 128 and holds the
same message type. -/
theorem wireId_survives_iff {pool : DescriptorPool}
    {schemas : List FileDescriptorProto} {name : Bytes} (contents : Bytes)
    (loaded : load pool schemas wireMsgs = .ok (protocols proto))
    (own : factory.getD proto = proto) (mem : name ∈ wireMsgs) :
    ∃ pos id blob, LastAt wireMsgs pos name ∧
        (protocols proto).factory.getSchemaId name = .ok id ∧
        sendMessage (protocols proto) (WireMsg.mk proto id contents) = some blob ∧
        (getWireMsg protocols factory proto blob = some (proto, ⟨proto, id, contents⟩) ↔
          pos % 256 < 128 ∧ wireMsgs[pos % 256]? = some name) ∧
        (sOnBlobReceived protocols factory proto blob =
            some (proto, text "on_" ++ name, ⟨proto, id, contents⟩) ↔
          pos % 256 < 128 ∧ wireMsgs[pos % 256]? = some name) := by
  obtain ⟨maps, sameMsgs⟩ := load_maps loaded
  obtain ⟨pos, lastPlace⟩ := SmartProtocol.exists_lastAt mem
  obtain ⟨id, known⟩ := maps.known name mem
  refine ⟨pos, id, _, lastPlace, known, sendMessage_at maps lastPlace known, ?_⟩
  have arrives : wireIdOf (wireBlob pos contents) = arriving pos := rfl
  by_cases low : pos % 256 < 128
  · -- the wire message at this position is selected
    have bound := (List.getElem?_eq_some_iff.mp lastPlace.here).1
    have inside : pos % 256 < wireMsgs.length := lt_of_le_of_lt (Nat.mod_le _ _) bound
    obtain ⟨other, here⟩ : ∃ other, wireMsgs[pos % 256]? = some other :=
      ⟨_, getElem?_eq_getElem inside⟩
    obtain ⟨otherId, otherKnown⟩ := maps.known other (mem_of_getElem? here)
    rw [arriving_low low] at arrives
    have received := getWireMsg_at maps own arrives here otherKnown
    have selected :=
      sOnBlobReceived_at (sameMsgs.symm ▸ maps) own arrives (by omega)
        (sameMsgs.symm ▸ here) otherKnown
    have same : otherId = id ↔ other = name := by
      constructor
      · rintro rfl
        have first := (maps.registered.getSchemaId_iff _ _).mp otherKnown
        have second := (maps.registered.getSchemaId_iff _ _).mp known
        exact Option.some.inj (first.symm.trans second)
      · rintro rfl
        exact Except.ok.inj (otherKnown.symm.trans known)
    rw [received, selected, here]
    simp [low, same, wireBlob]
  · have negative := arriving_high low
    rw [← arrives] at negative
    rw [getWireMsg_negative maps negative, sOnBlobReceived_negative maps negative]
    simp [low]

def Loaded (protocol : SmartProtocol) : Prop :=
  ∃ pool schemas wireMsgs, load pool schemas wireMsgs = .ok protocol

def twoNames : Bool → List Bytes
  | false => [text "A"]
  | true => [text "B", text "C"]

def loadTwo (proto : Bool) : Except Bytes SmartProtocol :=
  load ProtobufFactory.strictPool
    [plainFile (twoNames proto)] (twoNames proto)

theorem loadTwo_isSome (proto : Bool) : (loadTwo proto).toOption.isSome = true := by
  cases proto with
  | false => decide +kernel
  | true => decide +kernel

def twoProtocols (proto : Bool) : SmartProtocol :=
  (loadTwo proto).toOption.get (loadTwo_isSome proto)

theorem eq_ok_of_isSome {result : Except Bytes SmartProtocol}
    (present : result.toOption.isSome = true) : result = .ok (result.toOption.get present) := by
  cases result with
  | error what => cases present
  | ok protocol => rfl

theorem loadTwo_eq (proto : Bool) : loadTwo proto = .ok (twoProtocols proto) :=
  eq_ok_of_isSome (loadTwo_isSome proto)

theorem wireId_survives_second :
    ∃ id blob, sendMessage (twoProtocols true) (WireMsg.mk true id [7]) = some blob ∧
        getWireMsg twoProtocols none true blob = some (true, ⟨true, id, [7]⟩) ∧
          sOnBlobReceived twoProtocols none true blob =
            some (true, text "on_C", ⟨true, id, [7]⟩) := by
  have own : (none : Option Bool).getD true = true := rfl
  have mem : text "C" ∈ twoNames true := by decide
  obtain ⟨pos, id, blob, lastPlace, -, sent, received, selected⟩ :=
    wireId_survives_iff [7] (loadTwo_eq true) own mem
  have second : pos = 1 := by
    have here := lastPlace.here
    rcases pos with _ | _ | rest
    · exact absurd here (by decide)
    · rfl
    · cases here
  subst second
  exact ⟨id, blob, sent, received.mpr (by decide), selected.mpr (by decide)⟩

def manyNames : List Bytes :=
  (List.range 129).map fun number => [UInt8.ofNat number]

theorem manyNames_nodup : manyNames.Nodup := by
  refine List.Nodup.map_on (fun first bound second other same => ?_) nodup_range
  rw [mem_range] at bound other
  have values := congrArg UInt8.toNat (List.cons.inj same).1
  simp only [UInt8.toNat_ofNat'] at values
  omega

theorem wireId_lost :
    ∃ protocol id, load ProtobufFactory.strictPool
          [plainFile manyNames] manyNames =
        .ok protocol ∧
      protocol.factory.getSchemaId [128] = .ok id ∧
      sendMessage protocol (WireMsg.mk () id []) = some (wireBlob 128 []) ∧
      getWireMsg (fun _ => protocol) none () (wireBlob 128 []) = none := by
  obtain ⟨protocol, loaded⟩ := SmartProtocol.load_plain manyNames_nodup
  obtain ⟨maps, -⟩ := load_maps loaded
  have lastPlace : LastAt manyNames 128 [128] :=
    { here := by decide +kernel
      last := fun later after => by
        rw [getElem?_eq_none (by simp [manyNames]; omega)]
        simp }
  obtain ⟨id, known⟩ := maps.known [128] (mem_of_getElem? lastPlace.here)
  refine ⟨protocol, id, loaded, known, sendMessage_at maps lastPlace known,
    getWireMsg_negative maps ?_⟩
  decide +kernel

/-! ## One static factory -/

/-- The messages that nodes get, call by call; a check that fails ends the
process. -/
def receiveAll (protocols : ι → SmartProtocol) (protoOf : ν → ι) :
    Option ι → List (ν × Blob) → List (Option (WireMsg ι))
  | _, [] => []
  | factory, (node, blob) :: rest =>
    match getWireMsg protocols factory (protoOf node) blob with
    | none => [none]
    | some (factory, msg) => some msg :: receiveAll protocols protoOf (some factory) rest

def mapped (protocols : ι → SmartProtocol) (protoOf : ν → ι) (call : ν × Blob) : Bool :=
  decide ((protocols (protoOf call.1)).getFactoryFromWire (wireIdOf call.2) > -1)

/-- The message of the node's own protocol: made by its factory, with the
schema that it maps the wire id to. -/
def ownMsg (protocols : ι → SmartProtocol) (protoOf : ν → ι) (call : ν × Blob) : WireMsg ι :=
  ⟨protoOf call.1, ((protocols (protoOf call.1)).getFactoryFromWire (wireIdOf call.2)).toNat,
    call.2.val.drop 1⟩

def receiveOwn (protocols : ι → SmartProtocol) (protoOf : ν → ι) :
    List (ν × Blob) → List (Option (WireMsg ι))
  | [] => []
  | call :: rest =>
    if mapped protocols protoOf call then
      some (ownMsg protocols protoOf call) :: receiveOwn protocols protoOf rest
    else [none]

variable {protoOf : ν → ι}

theorem getWireMsg_own (loaded : Loaded (protocols (protoOf call.1)))
    (own : factory.getD (protoOf call.1) = protoOf call.1) :
    getWireMsg protocols factory (protoOf call.1) call.2 =
      if mapped protocols protoOf call then some (protoOf call.1, ownMsg protocols protoOf call)
      else none := by
  obtain ⟨pool, schemas, wireMsgs, loaded⟩ := loaded
  obtain ⟨maps, -⟩ := load_maps loaded
  rcases getFactoryFromWire_cases maps (wireIdOf call.2) with
    absent | ⟨pos, id, name, arrives, found, here, known⟩
  · simp [getWireMsg, mapped, absent]
  · have positive : (-1 : Int) < id := by omega
    rw [getWireMsg_at maps own arrives here known]
    simp [mapped, ownMsg, found, positive]

theorem getWireMsg_foreign {other made : ι} {msg : WireMsg ι} (ne : other ≠ protoOf call.1)
    (received : getWireMsg protocols (some other) (protoOf call.1) call.2 = some (made, msg)) :
    msg ≠ ownMsg protocols protoOf call := by
  simp only [getWireMsg] at received
  split at received
  · split at received
    · cases received
      intro same
      exact ne (congrArg WireMsg.factory same)
    · cases received
  · cases received

theorem getWireMsg_unmapped (unmapped : mapped protocols protoOf call = false) :
    getWireMsg protocols factory (protoOf call.1) call.2 = none := by
  exact if_neg (of_decide_eq_false unmapped)

/-- With the factory `made` in the static variable, all nodes get the messages
of their own protocols exactly if all of them have the protocol `made`, up to
the first call that ends the process. -/
theorem receiveAll_some_iff (loaded : ∀ proto, Loaded (protocols proto))
    (made : ι) (calls : List (ν × Blob)) :
    receiveAll protocols protoOf (some made) calls = receiveOwn protocols protoOf calls ↔
      ∀ call ∈ calls.takeWhile (mapped protocols protoOf), protoOf call.1 = made := by
  induction calls with
  | nil => simp [receiveAll, receiveOwn]
  | cons call rest ih =>
    rw [receiveAll, receiveOwn]
    by_cases isMapped : mapped protocols protoOf call = true
    · rw [if_pos isMapped, takeWhile_cons_of_pos isMapped]
      by_cases same : protoOf call.1 = made
      · have received :=
          getWireMsg_own (loaded (protoOf call.1))
            (show (some made).getD (protoOf call.1) = protoOf call.1 from same.symm)
        rw [if_pos isMapped] at received
        rw [received]
        rw [same, List.cons.injEq, ih]
        simp [same]
      · -- the message is made by a foreign factory, or there is none
        refine iff_of_false (fun equal => ?_) fun all => same (all call mem_cons_self)
        cases received : getWireMsg protocols (some made) (protoOf call.1) call.2 with
        | none =>
          rw [received] at equal
          simp at equal
        | some result =>
          rw [received] at equal
          have foreign := getWireMsg_foreign (Ne.symm same) received
          exact foreign (Option.some.inj (List.cons.inj equal).1)
    · have unmapped := Bool.eq_false_iff.mpr isMapped
      rw [if_neg isMapped, takeWhile_cons_of_neg isMapped, getWireMsg_unmapped unmapped]
      simp

/-- In every process, all nodes get the messages of their own protocols
exactly if, up to the first call that ends the process, all calls are made on
nodes of one protocol. -/
theorem receiveAll_own_iff (loaded : ∀ proto, Loaded (protocols proto)) (calls : List (ν × Blob)) :
    receiveAll protocols protoOf none calls = receiveOwn protocols protoOf calls ↔
      ∀ call ∈ calls.takeWhile (mapped protocols protoOf),
        ∀ other ∈ calls.takeWhile (mapped protocols protoOf), protoOf call.1 = protoOf other.1 := by
  cases calls with
  | nil => simp [receiveAll, receiveOwn]
  | cons call rest =>
    rw [receiveAll, receiveOwn]
    by_cases isMapped : mapped protocols protoOf call = true
    · have received : getWireMsg protocols none (protoOf call.1) call.2 = _ :=
        getWireMsg_own (loaded (protoOf call.1)) rfl
      rw [if_pos isMapped] at received
      rw [if_pos isMapped, takeWhile_cons_of_pos isMapped, received]
      rw [List.cons.injEq, receiveAll_some_iff loaded]
      constructor
      · rintro ⟨-, all⟩
        have first : ∀ other ∈ call :: rest.takeWhile (mapped protocols protoOf),
              protoOf other.1 = protoOf call.1 := by
          rw [forall_mem_cons]
          exact ⟨rfl, all⟩
        intro one mem other otherMember
        rw [first one mem, first other otherMember]
      · intro all
        refine ⟨rfl, fun other mem => ?_⟩
        exact all other (mem_cons_of_mem _ mem) call mem_cons_self
    · have unmapped := Bool.eq_false_iff.mpr isMapped
      rw [if_neg isMapped, takeWhile_cons_of_neg isMapped, getWireMsg_unmapped unmapped]
      simp

theorem receiveAll_own_single :
    receiveAll twoProtocols id none [(true, wireBlob 0 []), (true, wireBlob 1 [])] =
      receiveOwn twoProtocols id [(true, wireBlob 0 []), (true, wireBlob 1 [])] :=
  (receiveAll_own_iff (fun proto => ⟨_, _, _, loadTwo_eq proto⟩) _).mpr (by decide +kernel)

/-- A node of the second protocol gets messages of the first one, once a node
of the first protocol has received a message. -/
theorem receiveAll_foreign :
    receiveAll twoProtocols id none [(false, wireBlob 0 []), (true, wireBlob 0 [])] =
        [some ⟨false, 0, []⟩, some ⟨false, 0, []⟩] ∧
      receiveAll twoProtocols id none
          [(false, wireBlob 0 []), (true, wireBlob 1 [])] = [some ⟨false, 0, []⟩, none] := by
  decide +kernel

end AutomatonCore.Node
