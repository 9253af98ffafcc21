import GoSecs.Hsms.Registry

open Secs2

namespace Secs2.Item

def isBinary : Item → Bool
  | leaf _ (.binary _) => true
  | _ => false

def toBinary : Item → Except Err Bytes
  | leaf b (.binary vs) =>
    match b.itemErr with
    | some e => .error e
    | none   => .ok vs
  | leaf b _ => .error (b.typeErr "ToBinary")
  | list b _ _ => .error (b.typeErr "ToBinary")
  | empty => .error (Base.typeErr {} "ToBinary")

end Secs2.Item

namespace Hsms

-- `decodeErrorHandlers` tells whether at least one such handler is registered.
structure Options where
  sessionID : UInt16 := 0
  validateSessionID : Bool := false
  strictReplyMatching : Bool := false
  s9Correlation : Bool := false
  equipmentRole : Bool := false
  decodeErrorHandlers : Bool := false
  mhead : MheadPolicy := .mheadExact

-- What a delivery does with its message, apart from the claims on waits.
inductive Delivery
  | enqueue       (msg : DataMessage)
  | sessionDrop   (msg : DataMessage)
  | routeReply    (msg : DataMessage) (delivered : Bool)
  | decodeHandler (msg : DataMessage) (err : Fault)
  | dataHandler   (msg : DataMessage)

def Delivery.isDestination : Delivery → Bool
  | enqueue _ => false
  | routeReply _ d => d
  | _ => true

def Header.ofBytes : Bytes → Option Header
  | [h0, h1, h2, h3, h4, h5, h6, h7, h8, h9] => some { h0, h1, h2, h3, h4, h5, h6, h7, h8, h9 }
  | _ => none

def DataMessage.isPrimary (m : DataMessage) : Bool :=
  m.waitBit ∨ m.function % 2 = 1

def isSecondaryReply (dm : DataMessage) : Bool :=
  ¬dm.isPrimary

def DataMessage.decodeErr (m : DataMessage) : Option Fault :=
  m.item.2

def DataMessage.isS9F1 (dm : DataMessage) : Bool :=
  dm.stream = 9 ∧ dm.function = 1

def byteValue (b : UInt8) : IntValue .uint8 where
  val := b.toNat
  min_le := Int.natCast_nonneg _
  le_max := Int.ofNat_le.mpr (Nat.le_of_lt_succ b.toNat_lt)

-- `gem.S9F1`: the body is the header of the offending message.
def s9F1 (sessionID : UInt16) (sb : SysBytes) (mhead : Header) : Except Err DataMessage :=
  newDataMessage 9 1 false sessionID sb
    (some (newBinaryItem [.ints .uint8 (mhead.bytes.map byteValue)]))

-- The session ID of an S9F1 is never checked. Only equipment that has a generation answers.
def checkSessionID (opts : Options) (e : Option ReplyRegistry) (sb : SysBytes) (dm : DataMessage) :
    Option (List Delivery) :=
  if dm.isS9F1 ∨ dm.header.sessionID = opts.sessionID then none
  else if e.isSome ∧ opts.equipmentRole then
    match s9F1 opts.sessionID sb dm.header with
    | .ok reject => some [.enqueue reject, .sessionDrop dm]
    | .error _   => some [.sessionDrop dm]
  else some [.sessionDrop dm]

def correlatedMhead (opts : Options) (dm : DataMessage) : Option Header :=
  if dm.stream ≠ 9 ∨ ¬opts.s9Correlation then none
  else if dm.function ∈ [1, 3, 5, 7, 11] then
    match dm.item with
    | (some item, none) =>
      if ¬item.isBinary ∨ item.size ≠ 10 then none
      else
        match item.toBinary with
        | .ok b    => Header.ofBytes b
        | .error _ => none
    | _ => none
  else none

def correlateS9On (opts : Options) (e : Option ReplyRegistry) (dm : DataMessage) :
    Option ReplyRegistry :=
  e.map fun r =>
    match correlatedMhead opts dm with
    | none => r
    | some mhead => (r.failS9 mhead opts.mhead { err := some (.s9 dm.function mhead dm) }).1

-- A Reject.req ends a wait as an error that carries its reason.
def Message.result (msg : Message) : ReplyResult :=
  if msg.type = .rejectReq then { err := some (.reject msg.header.h3) } else { msg := some msg }

def routeReplyOn (opts : Options) (e : Option ReplyRegistry) (msg : Message) :
    Option ReplyRegistry × Bool :=
  match e with
  | none   => (none, false)
  | some r =>
    let (r, delivered, _) := r.route msg.header.systemBytes msg.result opts.strictReplyMatching
    (some r, delivered)

def routeDataOn (opts : Options) (dm : DataMessage) : List Delivery :=
  if opts.decodeErrorHandlers then
    match dm.decodeErr with
    | some err => [.decodeHandler dm err]
    | none => [.dataHandler dm]
  else [.dataHandler dm]

-- The part of `deliverOwnedFrameOn` after the frame was decoded. `e` is the registry of the
-- generation that admitted the frame and `sb` the system bytes of the next message that is sent.
def deliverOn (opts : Options) (e : Option ReplyRegistry) (sb : SysBytes) (dm : DataMessage) :
    Option ReplyRegistry × List Delivery :=
  match if opts.validateSessionID then checkSessionID opts e sb dm else none with
  | some effects => (e, effects)
  | none =>
    let e := correlateS9On opts e dm
    if isSecondaryReply dm then
      match routeReplyOn opts e (.data dm) with
      | (e, true)  => (e, [.routeReply dm true])
      | (e, false) => (e, .routeReply dm false :: routeDataOn opts dm)
    else (e, routeDataOn opts dm)

def deliverOwnedFrameOn (opts : Options) (e : Option ReplyRegistry) (sb : SysBytes)
    (frame : Bytes) : Except Err (Option ReplyRegistry × List Delivery) :=
  match decodeOwnedFrame frame with
  | .error err => .error err
  | .ok (.control _) => .error (.msg "hsms: DeliverOwnedFrame received a non-data frame")
  | .ok (.data dm) => .ok (deliverOn opts e sb dm)

def admitted (opts : Options) (dm : DataMessage) : Bool :=
  ¬opts.validateSessionID ∨ dm.isS9F1 ∨ dm.header.sessionID = opts.sessionID

namespace Inbound

-- The calls on the registry of one generation, by the goroutines that make them.
inductive CallId
  | s9      (t : Nat)
  | reply   (t : Nat)
  | control (t : Nat)
deriving DecidableEq

-- One generation, with the messages that its deliveries admitted and the options that each of them
-- read.
structure State where
  reg  : Registry.State CallId := {}
  msgs : Nat → Option (Options × DataMessage) := fun _ => none

inductive Action
  | deliver   (t : Nat) (opts : Options) (frame : Bytes)
  | correlate (t : Nat)
  | offer     (t : Nat)
  | control   (t : Nat) (opts : Options) (msg : ControlMessage)
  | registry  (a : Registry.Action CallId)

def onRegistry (s : State) : Action → Option (Registry.Action CallId)
  | .deliver _ _ _ => none
  | .correlate t   => do
    let (opts, dm) ← s.msgs t
    let mhead ← correlatedMhead opts dm
    return .call (.s9 t) (.s9 mhead opts.mhead { err := some (.s9 dm.function mhead dm) })
  | .offer t => do
    let (opts, dm) ← s.msgs t
    if isSecondaryReply dm then
      return .call (.reply t)
        (.reply dm.header.systemBytes (Message.data dm).result opts.strictReplyMatching)
    else none
  | .control t opts msg =>
    some (.call (.control t)
      (.reply msg.header.systemBytes (Message.control msg).result opts.strictReplyMatching))
  | .registry a => some a

-- A delivery offers its message only after the correlation, and all calls are made by deliveries
-- and by the routing of control messages.
def fits (s : State) : Action → Prop
  | .deliver t _ _ => (s.msgs t).isNone
  | .offer t => ((s.reg.calls (.s9 t)).isReturned ∨ (onRegistry s (.correlate t)).isNone)
  | .registry a =>
    match a with
    | .call _ _ => False
    | _ => True
  | _ => True

-- A frame that is admitted leaves its message for the correlation and the offer.
def admitFrame (s : State) (t : Nat) (opts : Options) (frame : Bytes) :
    Nat → Option (Options × DataMessage) :=
  match decodeOwnedFrame frame with
  | .ok (.data dm) => if admitted opts dm then Function.update s.msgs t (some (opts, dm)) else s.msgs
  | _ => s.msgs

def next (s : State) (a : Action) : State where
  reg :=
    match onRegistry s a with
    | some a => Registry.next s.reg a
    | none   => s.reg
  msgs :=
    match a with
    | .deliver t opts frame => admitFrame s t opts frame
    | _ => s.msgs

def enabled (s : State) : Option (Registry.Action CallId) → Prop
  | some a => Registry.guard s.reg a
  | none   => True

def guard (s : State) (a : Action) : Prop :=
  fits s a ∧ enabled s (onRegistry s a)

instance (s : State) : ∀ a, Decidable (fits s a)
  | .deliver t _ _ => inferInstanceAs (Decidable ((s.msgs t).isNone))
  | .offer t =>
    inferInstanceAs (Decidable ((s.reg.calls (.s9 t)).isReturned ∨
      (onRegistry s (.correlate t)).isNone))
  | .registry (.call _ _) => .isFalse id
  | .registry (.registerData _) => .isTrue trivial
  | .registry (.registerControl _) => .isTrue trivial
  | .registry (.deregister _) => .isTrue trivial
  | .registry (.receive _) => .isTrue trivial
  | .registry (.step _) => .isTrue trivial
  | .correlate _ => .isTrue trivial
  | .control _ _ _ => .isTrue trivial

instance (s : State) : ∀ a, Decidable (enabled s a)
  | some a => inferInstanceAs (Decidable (Registry.guard s.reg a))
  | none   => .isTrue trivial

def inbound : Machine State Action where
  init s := s = {}
  guard  := guard
  next   := next

abbrev generations : Machine (Nat → State) (Nat × Action) :=
  inbound.pi Nat

def start : Nat → State :=
  fun _ => {}

instance (s : Nat → State) (a : Nat × Action) : Decidable (generations.guard s a) :=
  inferInstanceAs (Decidable (fits (s a.1) a.2 ∧ enabled (s a.1) (onRegistry (s a.1) a.2)))

end Inbound
end Hsms
