import NetworkLab.Iou.Plug
import NetworkLab.Lib.PyText

/-!
# The NETMAP parser

`parse_netmap` of `lab-iou/iou2vde.py:331–361`. The file is read anew for each mapping, and
does not change meanwhile. Host names are not looked at. No number has more than the 4300
digits that `int` takes.
-/

namespace NetworkLab.Iou

open Lib

/-! ### Tokens and lines -/

/-- One character at the start of a text. -/
def expect (c : Char) : List Char → Option (List Char)
  | [] => none
  | x :: xs => if x = c then some xs else none

/-- `iire.match` of a token, `:333`. The optional host name cannot make it fail. -/
def matchToken (s : List Char) : Option Plug := do
  let (inst, s) ← PyText.matchDigits s
  let s ← expect ':' s
  let (major, s) ← PyText.matchDigits s
  let s ← expect '/' s
  let (minor, _) ← PyText.matchDigits s
  return { inst, major, minor }

/-- The matches of a line, `:340–341`. -/
def lineTokens (line : List Char) : List Plug := (PyText.splitSpace line).filterMap matchToken

/-- The matches of each line of the file, which is opened in text mode. -/
def netmapLines (netmap : List Char) : List (List Plug) :=
  (PyText.lines (PyText.universalNewlines netmap)).map lineTokens

/-! ### Wires -/

/-- A mapping argument: the major and the socket. -/
structure Mapping where
  major : Int
  sock : List Char
  deriving DecidableEq

/-- The split of a mapping argument, `:336–337`; `none` where it raises. -/
def parseMapping (mapping : List Char) : Option Mapping :=
  match mapping.splitOn ':' with
  | [major, sock] => (PyText.int? major).map fun major ↦ { major, sock }
  | _ => none

/-- The wires: for each VDE plug its socket and its IOU plugs. -/
abbrev Wires := Dict Plug (List Char × List Plug)

/-- Whether a match belongs to this program and a major, `:342–345`. -/
def isUs (inst major : Int) (ii : Plug) : Bool := ii.inst = inst ∧ ii.major = major

/-- What a line adds to the wires, `:342–358`: a VDE plug and IOU plugs. The matches in
`us` are told apart by identity, so the others are those that are not ours. -/
def lineWire (inst major : Int) (line : List Plug) : Option (Plug × List Plug) :=
  match line.filter (isUs inst major) with
  | [] => none
  | u :: _ =>
    some ({ inst := inst.toNat, major := major.toNat, minor := u.minor },
      line.filter fun ii ↦ !isUs inst major ii)

/-- `wires[vdeplug].extend(iouplugs)`, `:358`. An equal plug that is there stays. -/
def extendWires (wires : Wires) (sock : List Char) (wire : Plug × List Plug) : Wires :=
  wires.alter wire.1 fun
    | none => (sock, wire.2)
    | some (sock', others) => (sock', others ++ wire.2)

/-- One line read for one mapping, `:340–358`. -/
def addLine (inst : Int) (m : Mapping) (wires : Wires) (line : List Plug) : Wires :=
  match lineWire inst m.major line with
  | none => wires
  | some wire => extendWires wires m.sock wire

/-- The file read for one mapping, `:338–358`. -/
def addMapping (inst : Int) (lines : List (List Plug)) (wires : Wires) (m : Mapping) : Wires :=
  lines.foldl (addLine inst m) wires

/-- `parse_netmap`, `:331–361`: `none` where it raises. -/
def parseNetmap (inst : Int) (netmap : List Char) (mappings : List (List Char)) :
    Option Wires :=
  (mappings.mapM parseMapping).map fun ms ↦
    ms.foldl (addMapping inst (netmapLines netmap)) .empty

/-- The VDE plug `v` and the IOU plug `w` are wired together. -/
def Wired (wires : Wires) (v w : Plug) : Prop :=
  ∃ sock others, wires.get? v = some (sock, others) ∧ w ∈ others

end NetworkLab.Iou
