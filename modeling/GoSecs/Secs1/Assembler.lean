import GoSecs.Lib.Machine
import GoSecs.Secs1.Block

open Secs2 Hsms

namespace Secs1

inductive Counter
  | deviceIDMismatch
  | blockDirDrop
  | partialTimeout
  | blockDupDrop
  | blockNumberMismatch
  | invalidFirstBlock
deriving DecidableEq

inductive Effect
  | count   (counter : Counter)
  | report  (violation : Sentinel) (header : Header)
  | deliver (frame : Bytes)
deriving DecidableEq

def Effect.frame? : Effect → Option Bytes
  | deliver frame => some frame
  | _ => none

def Effect.violation? : Effect → Option Sentinel
  | report violation _ => some violation
  | _ => none

def frames (es : List Effect) : List Bytes :=
  es.filterMap Effect.frame?

def violations (es : List Effect) : List Sentinel :=
  es.filterMap Effect.violation?

-- Times are in nanoseconds.
structure Assembler where
  isOpen : Bool
  header : MessageHeader
  blocks : List Block
  expected : UInt16
  lastBlockTime : Int
  lastHeader : Header
  haveLast : Bool
deriving DecidableEq

structure Arrival where
  block : Block
  now   : Int
  t4    : Int
deriving DecidableEq

-- Of the errors that a call returns, only that of a failed assembly is kept: the other one is the
-- answer of the receiver of a delivered frame.
structure Outcome where
  state : Assembler
  effects : List Effect
  err : Option Err
deriving DecidableEq

def Outcome.after (es : List Effect) (o : Outcome) : Outcome :=
  { o with effects := es ++ o.effects }

namespace Assembler

def zeroHeader : MessageHeader where
  deviceID := 0
  rBit := false
  stream := 0
  function := 0
  waitBit := false
  systemBytes := { s0 := 0, s1 := 0, s2 := 0, s3 := 0 }

def newAssembler : Assembler where
  isOpen := false
  header := zeroHeader
  blocks := []
  expected := 0
  lastBlockTime := 0
  lastHeader := Header.zero
  haveLast := false

-- The record of the last header persists.
def reset (a : Assembler) : Assembler :=
  { a with isOpen := false, header := zeroHeader, blocks := [], expected := 0, lastBlockTime := 0 }

def complete (a : Assembler) : Outcome :=
  match assembleFrame a.blocks with
  | .error err => { state := a.reset, effects := [], err := some err }
  | .ok frame  => { state := a.reset, effects := [.deliver frame], err := none }

-- Both ways to take a block end here: the last block completes the message.
def completeOn (a : Assembler) (eBit : Bool) : Outcome :=
  if eBit then a.complete else { state := a, effects := [], err := none }

def validFirst (blk : Block) : Bool :=
  blk.blockNumber == 1 || (blk.blockNumber == 0 && blk.eBit)

def startMessage (a : Assembler) (blk : Block) (now : Int) (notifyOnInvalid : Bool) : Outcome :=
  if validFirst blk then
    completeOn {
      isOpen := true
      header := blk.messageHeader
      blocks := [blk]
      expected := blk.blockNumber + 1
      lastBlockTime := now
      lastHeader := blk.header
      haveLast := true
    } blk.eBit
  else if notifyOnInvalid then
    { state := a
      effects := [.count .invalidFirstBlock, .report .invalidFirstBlock blk.header]
      err := none }
  else
    { state := a, effects := [], err := none }

def appendBlock (a : Assembler) (blk : Block) (now : Int) : Outcome :=
  completeOn { a with
    blocks := a.blocks ++ [blk]
    expected := blk.blockNumber + 1
    lastBlockTime := now
    lastHeader := blk.header
    haveLast := true
  } blk.eBit

-- The checks that follow the deadline: a repeated block, the block that continues the open message,
-- or a block that aborts it and may start the next one.
def place (a : Assembler) (blk : Block) (now : Int) : Outcome :=
  if a.haveLast ∧ blk.header = a.lastHeader then
    { state := a, effects := [.count .blockDupDrop], err := none }
  else if a.isOpen then
    if blk.blockNumber = a.expected ∧ blk.messageHeader = a.header then
      a.appendBlock blk now
    else
      let violation :=
        if blk.blockNumber ≠ a.expected then .blockNumberMismatch else .headerMismatch
      (a.reset.startMessage blk now false).after
        [.count .blockNumberMismatch, .report violation blk.header]
  else
    a.startMessage blk now true

def accept (cfg : Config) (a : Assembler) (x : Arrival) : Outcome :=
  if x.block.deviceID ≠ cfg.deviceID then
    { state := a
      effects := [.count .deviceIDMismatch, .report .deviceIDMismatch x.block.header]
      err := none }
  else if x.block.rBit = cfg.isEquip then
    { state := a, effects := [.count .blockDirDrop], err := none }
  else if a.isOpen ∧ x.now - a.lastBlockTime > x.t4 then
    (a.reset.place x.block x.now).after [.count .partialTimeout]
  else
    a.place x.block x.now

-- The engine feeds one block after the other and goes on whatever `accept` returns.
def feed (cfg : Config) : Assembler → List Arrival → Assembler × List Effect
  | a, [] => (a, [])
  | a, x :: xs =>
    let o := a.accept cfg x
    let r := feed cfg o.state xs
    (r.1, o.effects ++ r.2)

-- Fresh, then fed with any blocks at any times.
def assembler (cfg : Config) : Machine Assembler Arrival where
  init a := a = newAssembler
  guard _ _ := True
  next a x := (a.accept cfg x).state

end Assembler

end Secs1
