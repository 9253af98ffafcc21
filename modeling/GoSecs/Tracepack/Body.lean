import GoSecs.Tracepack.Event
import GoSecs.Tracepack.Registry

open Run

namespace Tracepack

open Tlv
open Format (UUID)

variable {α β : Type}

-- How the entries of known tags are read into a structure.
abbrev Setters (α : Type) := List (Nat × (α → Entry → Run Err α))

def setField (decode : Entry → Run Err β) (assign : α → β → α) : α → Entry → Run Err α :=
  fun a e => do return assign a (← decode e)

def setNested (decode : List Entry → Run Err β) (assign : α → β → α) : α → Entry → Run Err α :=
  fun a e => do return assign a (← decode (← e.nested))

def settersAt (setters : Setters α) (reg : Registry) (minor : Nat) : Setters α :=
  setters.filter fun (tag, _) => (reg.lookup tag).all fun f : Field => f.since ≤ minor

-- The known entries are read and the others are left out.
def decodeNested (setters : Setters α) (zero : α) (entries : List Entry) : Run Err α :=
  entries.foldlM (fun a e =>
    match setters.lookup e.tag with
    | some set => set a e
    | none => pure a) zero

def newRawEntry (e : Entry) : RawEntry :=
  { tag := e.tag, type := e.type, value := e.value }

def decodeKeeping (setters : Setters α) (keep : α → RawEntry → α) (zero : α)
    (entries : List Entry) : Run Err α :=
  entries.foldlM (fun a e =>
    match setters.lookup e.tag with
    | some set => set a e
    | none => pure (keep a (newRawEntry e))) zero

def u64As (e : Entry) : Run Err UInt64 := do
  return .ofNat (← e.u64)

def i64As (e : Entry) : Run Err Int64 := do
  return .ofInt (← e.i64)

-- `0x%04X`
def tagText (tag : Nat) : String :=
  let digits := (Nat.toDigits 16 tag).map Char.toUpper
  "0x" ++ String.ofList (List.replicate (4 - digits.length) '0' ++ digits)

def tagName (reg : Registry) (tag : Nat) : String :=
  match reg.lookup tag with
  | some f => f.name
  | none   => tagText tag

def Err.isField : Err → Bool
  | .field _ _ => true
  | .sentinel _ => false
  | .text _ _ => false
  | .wrap _ _ e => e.isField
  | .mark _ e => e.isField
  | .tagged _ _ _ e => e.isField
  | .offset _ _ _ e => e.isField
  | .entry _ _ e => e.isField
  | .join e rest => e.isField || rest.isField

-- The first entry error of the chain.
def Err.entry? : Err → Option Err
  | .entry t p e => some (.entry t p e)
  | .sentinel _ => none
  | .text _ _ => none
  | .wrap _ _ e => e.entry?
  | .mark _ e => e.entry?
  | .tagged _ _ _ e => e.entry?
  | .offset _ _ _ e => e.entry?
  | .field _ e => e.entry?
  | .join e rest => e.entry? <|> rest.entry?

-- The sentinel of the innermost entry error and the names on the way to it, none for a list that ends
-- inside an entry at the top level.
def faultOf (reg : Registry) (path : List String) : Err → Option (Sentinel × List String)
  | .entry tag _ (.entry t p e) =>
    let nested := (reg.lookup tag).bind Field.nested
    faultOf (nested.getD []) (path ++ [tagName reg tag]) (.entry t p e)
  | .entry tag _ e =>
    if e.is .truncated then
      (if path = [] then none else some (.fieldValue, path))
    else if e.is .missing then
      some (.requiredTag, path ++ [tagName reg tag])
    else if e.is .length then
      some (.fieldLength, path ++ [tagName reg tag])
    else
      some (.fieldValue, path ++ [tagName reg tag])
  | _ => none

def fieldErrorOf (err : Err) (reg : Registry) : Err :=
  if err.isField then
    err
  else
    match err.entry? with
    | none => err
    | some outer =>
      match faultOf reg [] outer with
      | none => err
      | some (s, path) => .field (".".intercalate path) (.mark s outer)

def corruptError (what : String) (err : Err) (reg : Registry) : Err :=
  .wrap "tracepack: decode %s: %w" [.text what] (.mark .corrupt (fieldErrorOf err reg))

end Tracepack
