import NetworkLab.Iou.Wiring
import NetworkLab.Lib.Numbering
import NetworkLab.Lib.Shell

/-!
# The NETMAP that the lab writes

`next_port`, `start_iou` and `start_iou2vde` of `lab-iou/setup:297–374`: the lines that are
written for the interfaces of an instance and the mappings for the switches. The scripts and
windows of the instances are left out.
-/

namespace NetworkLab.Iou

open Lib Shell Numbering

/-- The files of `$TMP` that the functions keep: the last port of each network, in
`iou-vde/$net`, and `NETMAP`. -/
structure Tmp where
  ports : Dict Text Nat
  netmap : Option Text

/-- A number in decimal. -/
def decimal (n : Nat) : Text := Nat.toDigits 10 n

/-- `next_port`, `:297–308`. -/
def nextPort (net : Text) : StateM Tmp Nat := do
  let t ← get
  let current := match t.ports.get? net with
    | some current => current + 1
    | none => 0
  set { t with ports := t.ports.set net current }
  return current

/-- `$instance:$j/$i 666:$net/$port 1`, `:325`. -/
def netmapLine (inst : Text) (j i : Nat) (net : Text) (port : Nat) : Text :=
  inst ++ ":" ++ decimal j ++ "/" ++ decimal i ++ " 666:" ++ net ++ "/" ++ decimal port ++ " 1"

/-- `echo … >> "$TMP/NETMAP"`. -/
def Tmp.append (line : Text) (t : Tmp) : Tmp :=
  { t with netmap := some (t.netmap.getD [] ++ line ++ "\n") }

/-- The loop over `$NET`, `:323–331`. -/
def writeInterfaces (inst : Text) : List Text → (i j : Nat) → StateM Tmp Unit
  | [], _, _ => return
  | net :: nets, i, j => do
    let port ← nextPort net
    modify (Tmp.append (netmapLine inst j i net port))
    if i + 1 < 4 then writeInterfaces inst nets (i + 1) j
    else writeInterfaces inst nets 0 (j + 1)

/-- `start_iou`, `:310–332`, with `NET` and the instance. -/
def startIou (net inst : Text) : StateM Tmp Unit := writeInterfaces inst (fieldsAt ',' net) 0 0

/-- `$TMP/switch-$net.sock`. -/
def switchSock (tmp net : Text) : Text := tmp ++ "/switch-" ++ net ++ ".sock"

/-- The mappings that `start_iou2vde` hands to `iou2vde.py`, `:363–374`. `args` is empty at
first. -/
def startIou2vde (tmp net : Text) : List Text :=
  fields ((fieldsAt ',' net).foldl
    (fun args net ↦ args ++ " " ++ net ++ ":" ++ switchSock tmp net) [])

/-! ### Runs of the lab -/

/-- `NET=… start_iou NAME INSTANCE`, with numbers. -/
structure IouCall where
  inst : Nat
  nets : List Nat
  deriving DecidableEq

/-- Networks as `NET` has them. -/
def netText (nets : List Nat) : Text := [','].intercalate (nets.map decimal)

/-- The files after some calls, in a new `$TMP`. -/
def startAll (calls : List IouCall) : Tmp :=
  calls.foldl (fun t c ↦ (startIou (netText c.nets) (decimal c.inst) t).2) ⟨.empty, none⟩

/-- An interface of an instance and its network. -/
structure Attachment where
  net : Nat
  plug : Plug
  deriving DecidableEq

/-- The interfaces that some networks make from the `k`-th one on: four in a row. -/
def interfacesFrom (inst : Nat) (nets : List Nat) (k : Nat) : List Attachment :=
  (nets.zipIdx k).map fun p ↦ ⟨p.1, inst, p.2 / 4, p.2 % 4⟩

/-- The interfaces of an instance. -/
def IouCall.interfaces (c : IouCall) : List Attachment := interfacesFrom c.inst c.nets 0

/-- The interfaces of all instances, in the order in which they are started. -/
def attachments (calls : List IouCall) : List Attachment := calls.flatMap IouCall.interfaces

/-- The interfaces on a network, in that order. -/
def onNet (net : Nat) (as : List Attachment) : List Plug :=
  (withKey Attachment.net net as).map Attachment.plug

/-- The line for an interface and its port. -/
def attachmentLine (p : Attachment × Nat) : Text :=
  netmapLine (decimal p.1.plug.inst) p.1.plug.major p.1.plug.minor (decimal p.1.net) p.2

/-! ### What is written -/

/-- No two numbers are written alike. -/
theorem decimal_injective : Function.Injective decimal := by
  intro m n h
  have hint := congrArg PyText.int? h
  rw [decimal, decimal, PyText.int?_toDigits, PyText.int?_toDigits] at hint
  exact Int.ofNat.inj (Option.some.inj hint)

private theorem isDigit_of_mem_decimal {n : Nat} {c : Char} (h : c ∈ decimal n) :
    c.isDigit = true := Nat.isDigit_of_mem_toDigits (by decide) (by decide) h

/-- A character that is no digit is in no number. -/
theorem not_mem_decimal {c : Char} (hc : c.isDigit = false) (n : Nat) : c ∉ decimal n := by
  intro h
  rw [isDigit_of_mem_decimal h] at hc
  cases hc

/-- Networks are read as they were written. -/
theorem fieldsAt_netText (nets : List Nat) :
    fieldsAt ',' (netText nets) = nets.map decimal := by
  apply fieldsAt_intercalate
  intro w hw
  obtain ⟨n, -, rfl⟩ := List.mem_map.mp hw
  exact ⟨Nat.toDigits_ne_nil, not_mem_decimal (by decide) n⟩

/-- The next port of each network. -/
def Tmp.next (t : Tmp) (net : Nat) : Nat :=
  match t.ports.get? (decimal net) with
  | some current => current + 1
  | none => 0

/-- What is in `NETMAP`, if it is there. -/
def Tmp.text (t : Tmp) : Text := t.netmap.getD []

private theorem next_set (t : Tmp) (net : Nat) :
    Tmp.next { t with ports := t.ports.set (decimal net) (t.next net) } = bump t.next net := by
  funext net'
  unfold Tmp.next
  dsimp only
  rw [Dict.get?_set]
  by_cases h : net' = net
  · rw [h, if_pos rfl, bump_self]
  · rw [if_neg fun he ↦ h (decimal_injective he), bump_of_ne _ h]

/-- The files after the next interface is written. -/
def Tmp.write (t : Tmp) (inst : Text) (j i net : Nat) : Tmp :=
  Tmp.append (netmapLine inst j i (decimal net) (t.next net))
    { t with ports := t.ports.set (decimal net) (t.next net) }

/-- The loop writes a line and goes on with the next interface. -/
theorem writeInterfaces_cons (inst : Text) (net : Nat) (nets : List Text) (k : Nat) (t : Tmp) :
    (writeInterfaces inst (decimal net :: nets) (k % 4) (k / 4) t).2 =
      (writeInterfaces inst nets ((k + 1) % 4) ((k + 1) / 4)
        (t.write inst (k / 4) (k % 4) net)).2 := by
  have hstep : (writeInterfaces inst (decimal net :: nets) (k % 4) (k / 4) t).2 =
      ((if k % 4 + 1 < 4 then writeInterfaces inst nets (k % 4 + 1) (k / 4)
        else writeInterfaces inst nets 0 (k / 4 + 1)) (t.write inst (k / 4) (k % 4) net)).2 := by
    rfl
  rw [hstep]
  split
  · next h =>
    have hi : (k + 1) % 4 = k % 4 + 1 := by omega
    have hj : (k + 1) / 4 = k / 4 := by omega
    rw [hi, hj]
  · next h =>
    have hi : (k + 1) % 4 = 0 := by omega
    have hj : (k + 1) / 4 = k / 4 + 1 := by omega
    rw [hi, hj]

/-- Lines as a file has them. -/
def fileLines (lines : List Text) : Text := lines.flatMap (· ++ "\n")

private theorem text_write (t : Tmp) (inst : Text) (j i net : Nat) :
    (t.write inst j i net).text =
      t.text ++ (netmapLine inst j i (decimal net) (t.next net) ++ "\n") :=
  List.append_assoc _ _ _

private theorem next_write (t : Tmp) (inst : Text) (j i net : Nat) :
    (t.write inst j i net).next = bump t.next net := next_set t net

/-- The counters and lines of some interfaces. -/
structure Tmp.Wrote (as : List Attachment) (t t' : Tmp) : Prop where
  next : t'.next = as.foldl (fun next a ↦ bump next a.net) t.next
  text : t'.text = t.text ++ fileLines ((numberFrom Attachment.net t.next as).map attachmentLine)
  netmap : as ≠ [] ∨ t.netmap.isSome → t'.netmap.isSome

/-- The loop writes the interfaces with the next ports of their networks. -/
theorem writeInterfaces_wrote (inst : Nat) (nets : List Nat) (k : Nat) (t : Tmp) :
    t.Wrote (interfacesFrom inst nets k)
      (writeInterfaces (decimal inst) (nets.map decimal) (k % 4) (k / 4) t).2 := by
  induction nets generalizing k t with
  | nil => exact ⟨rfl, (List.append_nil _).symm, fun h ↦ h.resolve_left (fun h ↦ h rfl)⟩
  | cons net nets ih =>
    rw [List.map_cons, writeInterfaces_cons]
    obtain ⟨hnext, htext, hnetmap⟩ := ih (k + 1) (t.write (decimal inst) (k / 4) (k % 4) net)
    refine ⟨?_, ?_, fun _ ↦ hnetmap (Or.inr rfl)⟩
    · rw [hnext, next_write]
      rfl
    · rw [htext, next_write, text_write, List.append_assoc]
      rfl

/-- What was written one after the other. -/
theorem Tmp.Wrote.append {as bs : List Attachment} {t t' t'' : Tmp} (h : t.Wrote as t')
    (h' : t'.Wrote bs t'') : t.Wrote (as ++ bs) t'' where
  next := by rw [h'.next, h.next, List.foldl_append]
  text := by
    have hsplit : ∀ next, numberFrom Attachment.net next (as ++ bs) =
        numberFrom Attachment.net next as ++ numberFrom Attachment.net
          (as.foldl (fun next a ↦ bump next a.net) next) bs := numberFrom_append _ as bs
    rw [h'.text, h.text, h.next, List.append_assoc, hsplit, List.map_append, fileLines, fileLines,
      fileLines, List.flatMap_append]
  netmap := by
    rintro (hne | hsome)
    · by_cases has : as = []
      · rw [has] at hne
        exact h'.netmap (Or.inl hne)
      · exact h'.netmap (Or.inr (h.netmap (Or.inl has)))
    · exact h'.netmap (Or.inr (h.netmap (Or.inr hsome)))

/-- All calls together number the interfaces of each network from zero on. -/
theorem startAll_wrote (calls : List IouCall) :
    Tmp.Wrote (attachments calls) ⟨.empty, none⟩ (startAll calls) := by
  have hrun (t : Tmp) : t.Wrote (attachments calls)
      (calls.foldl (fun t c ↦ (startIou (netText c.nets) (decimal c.inst) t).2) t) := by
    induction calls generalizing t with
    | nil => exact ⟨rfl, (List.append_nil _).symm, fun h ↦ h.resolve_left (fun h ↦ h rfl)⟩
    | cons c calls ih =>
      have hone := writeInterfaces_wrote c.inst c.nets 0 t
      rw [Nat.zero_mod, Nat.zero_div, ← fieldsAt_netText] at hone
      exact hone.append (ih _)
  exact hrun _

end NetworkLab.Iou
